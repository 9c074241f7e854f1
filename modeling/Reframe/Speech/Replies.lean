import Reframe.Speech.QueuedSpeaker

/-! What becomes of a submitted reply: what one step does to it, that it is in one place at a time,
that it is heard in full where nothing stops it, and that the worker ends it. -/
namespace ReframeSpeech

namespace Event

variable {ι : Type}

def submitted? : Event ι → Option Job
  | .submitted job => some job
  | _ => none

def ended? : Event ι → Option Job
  | .ended job _ => some job
  | _ => none

/-- The chunk, where the event is audio of the job. -/
def audioOf? (job : Job) : Event ι → Option String
  | .audio job' chunk => if job' = job then some chunk else none
  | _ => none

end Event

section Steps

variable {ι : Type} [DecidableEq ι] (speechChunks : String → List String)

/-- What there is to speak of a reply. -/
def chunksOf (job : Job) : List String := if job.Blank then [] else speechChunks (clean job.text)

/-- What is left to speak of the reply of a worker that is neither interrupted nor failed. -/
def Worker.left? : Worker ι → Option (List String)
  | .waiting => none
  | .taken job | .begun job => some (chunksOf speechChunks job)
  | .checking _ rest => some rest
  | .starting _ chunk rest | .synthesizing _ chunk rest | .producing _ chunk rest =>
    some (chunk :: rest)
  | .draining _ => some []
  | .finishing _ .enqueued => some []
  | .finishing _ _ => none

/-- What a step does, as far as silence is concerned. -/
inductive Moved (s : State ι) : Action ι → State ι → Prop
  /-- Only the output may have changed. -/
  | rested (action : Action ι) (output : Option (List String)) (outputFailed : Bool) :
    Moved s action { s with output, outputFailed }
  | submitted (text : String) : Moved s (.submit text) (submit s text)
  | taken (environment : Environment) (job : Job) (jobs : List Job) (hworker : s.worker = .waiting)
    (hjobs : s.jobs = job :: jobs) :
    Moved s (.work environment) { s with jobs, worker := .taken job }
  | blank (environment : Environment) (job : Job) (hworker : s.worker = .taken job)
    (hblank : job.Blank) :
    Moved s (.work environment) { s.record (.ended job .enqueued) with worker := .waiting }
  | begun (environment : Environment) (job : Job) (hworker : s.worker = .taken job)
    (hblank : ¬job.Blank) :
    Moved s (.work environment) { s with worker := .begun job, playback := some none }
  | went (environment : Environment) (job : Job) (worker : Worker ι)
    (output : Option (List String)) (outputFailed : Bool)
    (hold : s.worker.speaking? = some job) (hnew : worker.speaking? = some job)
    (hleft : s.worker.left? speechChunks = worker.left? speechChunks ∨ job.Blank)
    (hcommitted : worker.Committed → s.interruptedBy? = none) :
    Moved s (.work environment) { s with worker, output, outputFailed }
  | synthesized (environment : Environment) (job : Job) (chunk : String) (rest : List String)
    (hworker : s.worker = .starting job chunk rest) :
    Moved s (.work environment)
      { s.record (.synthesis job chunk) with worker := .synthesizing job chunk rest }
  | sounded (environment : Environment) (job : Job) (chunk : String) (rest : List String)
    (output : Option (List String)) (hworker : s.worker = .producing job chunk rest) :
    Moved s (.work environment)
      { s.record (.audio job chunk) with worker := .checking job rest, output }
  | finished (environment : Environment) (job : Job) (outcome : Outcome ι)
    (hworker : s.worker.speaking? = some job)
    (houtcome : outcome = .failed ∧ environment.raises = true ∨
      (∃ call, outcome = .interrupted call ∧ s.interruptedBy? = some call) ∨
      outcome = .enqueued ∧ s.worker = .draining job) :
    Moved s (.work environment) { s with worker := .finishing job outcome }
  | ended (environment : Environment) (job : Job) (outcome : Outcome ι)
    (hworker : s.worker = .finishing job outcome) :
    Moved s (.work environment)
      { s.record (.ended job outcome) with worker := .waiting, playback := none }
  | marked (call : ι) (hcall : s.calls call = .ready) (hplayback : s.playback = some none) :
    Moved s (.interrupt call) { s.record (.began call) with
      playback := some (some call)
      calls := Function.update s.calls call (.clearing s.submissions) }
  | ignored (call : ι) (hcall : s.calls call = .ready) (hplayback : s.playback ≠ some none) :
    Moved s (.interrupt call) { s.record (.began call) with
      calls := Function.update s.calls call (.emptying s.submissions) }
  | cleared (call : ι) (since : ℕ) (output : Option (List String))
    (hcall : s.calls call = .clearing since) :
    Moved s (.interrupt call)
      { s with output, calls := Function.update s.calls call (.emptying since) }
  | discarded (call : ι) (since : ℕ) (job : Job) (jobs : List Job)
    (hcall : s.calls call = .emptying since) (hjobs : s.jobs = job :: jobs) :
    Moved s (.interrupt call) { s.record (.ended job (.discarded call)) with jobs }
  | returned (call : ι) (since : ℕ) (hcall : s.calls call = .emptying since) (hjobs : s.jobs = []) :
    Moved s (.interrupt call) { s.record (.returned call) with
      calls := Function.update s.calls call (.returned since) }

variable {speechChunks} {s : State ι}

theorem advance_moved (environment : Environment) :
    Moved speechChunks s (.work environment) (advance speechChunks s environment) := by
  unfold advance
  cases hworker : s.worker with
  | waiting =>
    cases hjobs : s.jobs with
    | nil => exact .rested _ s.output s.outputFailed
    | cons job jobs => exact .taken environment job jobs hworker hjobs
  | taken job =>
    change Moved _ _ _ (if clean job.text = "" then _ else _)
    by_cases hblank : clean job.text = ""
    · rw [if_pos hblank]
      exact .blank environment job hworker hblank
    · rw [if_neg hblank]
      exact .begun environment job hworker hblank
  | begun job =>
    have hmoved : ∀ output outputFailed, Moved speechChunks s (.work environment) { s with
        output, outputFailed, worker := .checking job (speechChunks (clean job.text)) } := by
      intro output outputFailed
      refine .went environment job _ output outputFailed (by rw [hworker]; rfl) rfl ?_ fun h => h.elim
      by_cases hblank : job.Blank
      · exact .inr hblank
      · rw [hworker]
        exact .inl (congrArg some (if_neg hblank))
    dsimp only
    unfold setUpOutput
    split
    · exact hmoved s.output s.outputFailed
    · split
      · exact hmoved (some []) s.outputFailed
      · exact hmoved none true
  | checking job rest =>
    cases rest with
    | nil =>
      exact .went environment job (.draining job) s.output s.outputFailed (by rw [hworker]; rfl) rfl
        (.inl (by rw [hworker]; rfl)) fun h => h.elim
    | cons chunk rest =>
      cases hflag : s.interruptedBy? with
      | none =>
        exact .went environment job (.starting job chunk rest) s.output s.outputFailed (by rw [hworker]; rfl) rfl
          (.inl (by rw [hworker]; rfl)) fun _ => hflag
      | some call =>
        exact .finished environment job _ (by rw [hworker]; rfl) (.inr (.inl ⟨call, rfl, hflag⟩))
  | starting job chunk rest => exact .synthesized environment job chunk rest hworker
  | synthesizing job chunk rest =>
    cases hflag : s.interruptedBy? with
    | none =>
      exact .went environment job (.producing job chunk rest) s.output s.outputFailed (by rw [hworker]; rfl) rfl
        (.inl (by rw [hworker]; rfl)) fun _ => hflag
    | some call =>
      exact .finished environment job _ (by rw [hworker]; rfl) (.inr (.inl ⟨call, rfl, hflag⟩))
  | producing job chunk rest => exact .sounded environment job chunk rest _ hworker
  | draining job =>
    change Moved _ _ _ (if s.output.getD [] ≠ [] then _ else _)
    by_cases hdrained : s.output.getD [] ≠ []
    · rw [if_pos hdrained]
      exact .rested _ s.output s.outputFailed
    · rw [if_neg hdrained]
      cases hflag : s.interruptedBy? with
      | none =>
        exact .finished environment job _ (by rw [hworker]; rfl) (.inr (.inr ⟨rfl, hworker⟩))
      | some call =>
        exact .finished environment job _ (by rw [hworker]; rfl) (.inr (.inl ⟨call, rfl, hflag⟩))
  | finishing job outcome => exact .ended environment job outcome hworker

theorem work_moved (environment : Environment) :
    Moved speechChunks s (.work environment) (work speechChunks s environment) := by
  unfold work
  split
  · exact .finished environment _ _ (by assumption) (.inl ⟨rfl, by assumption⟩)
  · exact advance_moved environment

theorem interrupt_moved (call : ι) : Moved speechChunks s (.interrupt call) (interrupt s call) := by
  unfold interrupt
  cases hcall : s.calls call with
  | ready =>
    cases hplayback : s.playback with
    | none => exact .ignored call hcall (by simp [hplayback])
    | some flag =>
      cases flag with
      | none => exact .marked call hcall hplayback
      | some other => exact .ignored call hcall (by simp [hplayback])
  | clearing since => exact .cleared call since _ hcall
  | emptying since =>
    cases hjobs : s.jobs with
    | nil => exact .returned call since hcall hjobs
    | cons job jobs => exact .discarded call since job jobs hcall hjobs
  | returned since => exact .rested _ s.output s.outputFailed

variable (speechChunks s) in
/-- What a step can do. -/
theorem step_moved (action : Action ι) : Moved speechChunks s action (step speechChunks s action) := by
  cases action with
  | submit text => exact .submitted text
  | interrupt call => exact interrupt_moved call
  | work environment => exact work_moved environment
  | play => exact .rested _ _ s.outputFailed

end Steps

/-! Every submitted reply is in one place. -/

section Counting

variable {ι : Type} {s : State ι}

theorem Worker.job?_of_speaking? {worker : Worker ι} {job : Job}
    (h : worker.speaking? = some job) : worker.job? = some job := by
  cases worker <;> first | exact h | cases h

/-- The submitted replies are those that have ended, the one of the worker and those in the queue. -/
structure Counted (s : State ι) : Prop where
  ids : (s.log.filterMap Event.submitted?).map Job.id = List.range s.submissions
  once : (s.log.filterMap Event.ended? ++ (s.worker.job?.toList ++ s.jobs)).Perm
    (s.log.filterMap Event.submitted?)

theorem filterMap_record {α : Type} (f : Event ι → Option α) (s : State ι) (e : Event ι) :
    (s.record e).log.filterMap f = s.log.filterMap f ++ (f e).toList := by
  change (s.log ++ [e]).filterMap f = _
  rw [List.filterMap_append]
  cases hf : f e <;> simp [hf]

theorem filterMap_record_none {α : Type} {f : Event ι → Option α} (s : State ι) {e : Event ι}
    (h : f e = none) : (s.record e).log.filterMap f = s.log.filterMap f := by
  rw [filterMap_record, h]
  exact List.append_nil _

/-- A step that neither submits a reply nor moves one keeps the count. -/
theorem Counted.of_same {s' : State ι} (h : Counted s)
    (hsubmitted : s'.log.filterMap Event.submitted? = s.log.filterMap Event.submitted?)
    (hended : s'.log.filterMap Event.ended? = s.log.filterMap Event.ended?)
    (hplaces : s'.worker.job?.toList ++ s'.jobs = s.worker.job?.toList ++ s.jobs)
    (hsubmissions : s'.submissions = s.submissions) : Counted s' := by
  constructor
  · rw [hsubmitted, hsubmissions]
    exact h.ids
  · rw [hsubmitted, hended, hplaces]
    exact h.once

/-- A reply that ends leaves its place. -/
theorem Counted.of_ended {s' : State ι} (h : Counted s) {job : Job} {outcome : Outcome ι}
    (hlog : s'.log = s.log ++ [.ended job outcome])
    (hplaces : (job :: (s'.worker.job?.toList ++ s'.jobs)).Perm (s.worker.job?.toList ++ s.jobs))
    (hsubmissions : s'.submissions = s.submissions) : Counted s' := by
  have hlog' : s'.log = (s.record (.ended job outcome)).log := hlog
  constructor
  · rw [hlog', filterMap_record_none s rfl, hsubmissions]
    exact h.ids
  · rw [hlog', filterMap_record_none (f := Event.submitted?) s rfl, filterMap_record,
      List.append_assoc]
    exact (hplaces.append_left _).trans h.once

namespace Counted

theorem nodup_submitted (h : Counted s) : (s.log.filterMap Event.submitted?).Nodup := by
  refine List.Nodup.of_map Job.id ?_
  rw [h.ids]
  exact List.nodup_range

theorem nodup_places (h : Counted s) :
    (s.log.filterMap Event.ended? ++ (s.worker.job?.toList ++ s.jobs)).Nodup :=
  h.once.nodup_iff.mpr h.nodup_submitted

theorem mem_submitted {log : List (Event ι)} {job : Job} :
    job ∈ log.filterMap Event.submitted? ↔ .submitted job ∈ log := by
  rw [List.mem_filterMap]
  constructor
  · rintro ⟨e, he, hjob⟩
    cases e with
    | submitted other => rwa [Option.some.inj hjob] at he
    | _ => cases hjob
  · exact fun h => ⟨_, h, rfl⟩

theorem mem_ended {log : List (Event ι)} {job : Job} :
    job ∈ log.filterMap Event.ended? ↔ ∃ outcome, .ended job outcome ∈ log := by
  rw [List.mem_filterMap]
  constructor
  · rintro ⟨e, he, hjob⟩
    cases e with
    | ended other outcome => exact ⟨outcome, by rwa [Option.some.inj hjob] at he⟩
    | _ => cases hjob
  · exact fun ⟨_, h⟩ => ⟨_, h, rfl⟩

theorem id_lt (h : Counted s) {job : Job} (hjob : .submitted job ∈ s.log) :
    job.id < s.submissions := by
  have hmem := List.mem_map_of_mem (f := Job.id) (mem_submitted.mpr hjob)
  rwa [h.ids, List.mem_range] at hmem

theorem submitted_of_ended (h : Counted s) {job : Job} {outcome : Outcome ι}
    (hjob : .ended job outcome ∈ s.log) : .submitted job ∈ s.log :=
  mem_submitted.mp (h.once.subset (List.mem_append_left _ (mem_ended.mpr ⟨outcome, hjob⟩)))

theorem submitted_of_job? (h : Counted s) {job : Job} (hjob : s.worker.job? = some job) :
    .submitted job ∈ s.log := by
  refine mem_submitted.mp (h.once.subset (List.mem_append_right _ (List.mem_append_left _ ?_)))
  rw [hjob]
  exact List.mem_singleton_self job

/-- The reply of the worker is not in the queue and has not ended. -/
theorem job?_elsewhere (h : Counted s) {job : Job} (hjob : s.worker.job? = some job) :
    job ∉ s.jobs ∧ ∀ outcome, .ended job outcome ∉ s.log := by
  have hnodup := h.nodup_places
  rw [hjob] at hnodup
  constructor
  · intro hmem
    have hright := (List.nodup_append.mp hnodup).2.1
    exact (List.nodup_cons.mp hright).1 hmem
  · intro outcome hmem
    refine (List.nodup_append.mp hnodup).2.2 job (mem_ended.mpr ⟨outcome, hmem⟩) job ?_ rfl
    exact List.mem_append_left _ (List.mem_singleton_self job)

end Counted

variable [DecidableEq ι] {speechChunks : String → List String}

theorem Counted.step {s' : State ι} {action : Action ι} (h : Counted s)
    (hmoved : Moved speechChunks s action s') : Counted s' := by
  cases hmoved with
  | rested => exact h.of_same rfl rfl rfl rfl
  | submitted text =>
    constructor
    · change ((s.record _).log.filterMap _).map _ = List.range (s.submissions + 1)
      rw [filterMap_record, List.map_append, h.ids, List.range_succ]
      rfl
    · change ((s.record _).log.filterMap _ ++ (_ ++ (s.jobs ++ _))).Perm ((s.record _).log.filterMap _)
      rw [filterMap_record_none s rfl, filterMap_record, ← List.append_assoc, ← List.append_assoc,
        List.append_assoc (s.log.filterMap _)]
      exact h.once.append_right _
  | taken _ job jobs hworker hjobs => exact h.of_same rfl rfl (by rw [hworker, hjobs]; rfl) rfl
  | blank _ job hworker => exact h.of_ended rfl (by rw [hworker]; exact .refl _) rfl
  | begun _ job hworker => exact h.of_same rfl rfl (by rw [hworker]; rfl) rfl
  | went _ job worker output outputFailed hold hnew =>
    refine h.of_same rfl rfl ?_ rfl
    rw [Worker.job?_of_speaking? hold, Worker.job?_of_speaking? hnew]
  | synthesized _ job chunk rest hworker =>
    exact h.of_same (filterMap_record_none s rfl) (filterMap_record_none s rfl)
      (by rw [hworker]; rfl) rfl
  | sounded _ job chunk rest output hworker =>
    exact h.of_same (filterMap_record_none s rfl) (filterMap_record_none s rfl)
      (by rw [hworker]; rfl) rfl
  | finished _ job outcome hworker =>
    exact h.of_same rfl rfl (by rw [Worker.job?_of_speaking? hworker]; rfl) rfl
  | ended _ job outcome hworker => exact h.of_ended rfl (by rw [hworker]; exact .refl _) rfl
  | marked call =>
    exact h.of_same (filterMap_record_none s rfl) (filterMap_record_none s rfl) rfl rfl
  | ignored call =>
    exact h.of_same (filterMap_record_none s rfl) (filterMap_record_none s rfl) rfl rfl
  | cleared => exact h.of_same rfl rfl rfl rfl
  | discarded call since job jobs hcall hjobs =>
    exact h.of_ended rfl (by rw [hjobs]; exact List.perm_middle.symm) rfl
  | returned call =>
    exact h.of_same (filterMap_record_none s rfl) (filterMap_record_none s rfl) rfl rfl

end Counting

/-! A reply that ends without an interruption has been spoken in full. -/

section Speaking

variable {ι : Type} {speechChunks : String → List String} {s : State ι}

structure Spoken (speechChunks : String → List String) (s : State ι) : Prop where
  nonblank : ∀ job, s.worker.speaking? = some job → ¬job.Blank
  worker : ∀ job left, s.worker.job? = some job → s.worker.left? speechChunks = some left →
    s.log.filterMap (Event.audioOf? job) ++ left = chunksOf speechChunks job
  queued : ∀ job ∈ s.jobs, s.log.filterMap (Event.audioOf? job) = []
  ended : ∀ job, .ended job .enqueued ∈ s.log →
    s.log.filterMap (Event.audioOf? job) = chunksOf speechChunks job
  heard : ∀ job chunk, .audio job chunk ∈ s.log → .submitted job ∈ s.log

/-- A step without audio only has to answer for the replies it moves. -/
theorem Spoken.of_quiet {s' : State ι} (h : Spoken speechChunks s) {e : Event ι}
    (hlog : s'.log = s.log ∨ s'.log = s.log ++ [e]) (he : ∀ job, e.audioOf? job = none)
    (hnonblank : ∀ job, s'.worker.speaking? = some job → s.worker.speaking? = some job ∨ ¬job.Blank)
    (hworker : ∀ job left, s'.worker.job? = some job →
      s'.worker.left? speechChunks = some left →
        (s.worker.job? = some job ∧ s.worker.left? speechChunks = some left) ∨
          s.log.filterMap (Event.audioOf? job) ++ left = chunksOf speechChunks job)
    (hqueued : ∀ job ∈ s'.jobs, job ∈ s.jobs ∨ s.log.filterMap (Event.audioOf? job) = [])
    (hended : ∀ job, e = .ended job .enqueued →
      s.log.filterMap (Event.audioOf? job) = chunksOf speechChunks job) :
    Spoken speechChunks s' := by
  have haudio : ∀ job, s'.log.filterMap (Event.audioOf? job) =
      s.log.filterMap (Event.audioOf? job) := by
    intro job
    rcases hlog with hlog | hlog
    · rw [hlog]
    · rw [hlog]
      exact filterMap_record_none s (he job)
  have hmem : ∀ e' ∈ s'.log, e' ∈ s.log ∨ e' = e := by
    intro e' he'
    rcases hlog with hlog | hlog
    · exact .inl (hlog ▸ he')
    · rw [hlog] at he'
      exact (List.mem_append.mp he').imp_right List.mem_singleton.mp
  refine ⟨fun job hjob => ?_, fun job left hjob hleft => ?_, fun job hjob => ?_, fun job hjob => ?_,
    fun job chunk hjob => ?_⟩
  · rcases hnonblank job hjob with hjob | hblank
    · exact h.nonblank job hjob
    · exact hblank
  · rw [haudio]
    rcases hworker job left hjob hleft with ⟨hjob, hleft⟩ | hspoken
    · exact h.worker job left hjob hleft
    · exact hspoken
  · rw [haudio]
    rcases hqueued job hjob with hjob | hnone
    · exact h.queued job hjob
    · exact hnone
  · rw [haudio]
    rcases hmem _ hjob with hjob | heq
    · exact h.ended job hjob
    · exact hended job heq.symm
  · rcases hmem _ hjob with hjob | rfl
    · have hsubmitted := h.heard job chunk hjob
      rcases hlog with hlog | hlog
      · rwa [hlog]
      · rw [hlog]
        exact List.mem_append_left _ hsubmitted
    · have hnone := he job
      simp [Event.audioOf?] at hnone

/-- Audio is what comes next of the reply of the worker, and of no other. -/
theorem Spoken.of_sounded (h : Spoken speechChunks s) (hcounted : Counted s) {job : Job}
    {chunk : String} {rest : List String} (hworker : s.worker = .producing job chunk rest)
    (output : Option (List String)) : Spoken speechChunks
      { s.record (.audio job chunk) with worker := .checking job rest, output } := by
  have hjob : s.worker.job? = some job := by rw [hworker]; rfl
  obtain ⟨hqueue, hended⟩ := hcounted.job?_elsewhere hjob
  have hself : (s.record (.audio job chunk)).log.filterMap (Event.audioOf? job) =
      s.log.filterMap (Event.audioOf? job) ++ [chunk] := by
    rw [filterMap_record, Event.audioOf?, if_pos rfl]
    rfl
  have hother : ∀ job', job' ≠ job → (s.record (.audio job chunk)).log.filterMap
      (Event.audioOf? job') = s.log.filterMap (Event.audioOf? job') :=
    fun job' hne => filterMap_record_none s (if_neg (Ne.symm hne))
  refine ⟨fun job' hjob' => ?_, fun job' left hjob' hleft => ?_, fun job' hjob' => ?_,
    fun job' hjob' => ?_, fun job' chunk' hjob' => ?_⟩
  · obtain rfl : job = job' := Option.some.inj hjob'
    exact h.nonblank job (by rw [hworker]; rfl)
  · obtain rfl : job = job' := Option.some.inj hjob'
    obtain rfl : rest = left := Option.some.inj hleft
    have hspoken := h.worker job (chunk :: rest) hjob (by rw [hworker]; rfl)
    change (s.record _).log.filterMap _ ++ rest = _
    rw [hself, List.append_assoc]
    exact hspoken
  · change (s.record _).log.filterMap _ = _
    rw [hother job' fun heq => hqueue (heq ▸ hjob')]
    exact h.queued job' hjob'
  · change (s.record _).log.filterMap _ = _
    rcases List.mem_append.mp hjob' with hjob' | hjob'
    · rw [hother job' fun heq => hended .enqueued (heq ▸ hjob')]
      exact h.ended job' hjob'
    · cases List.mem_singleton.mp hjob'
  · refine List.mem_append_left _ ?_
    rcases List.mem_append.mp hjob' with hjob' | hjob'
    · exact h.heard job' chunk' hjob'
    · cases List.mem_singleton.mp hjob'
      exact hcounted.submitted_of_job? hjob

variable [DecidableEq ι]

theorem Spoken.step {s' : State ι} {action : Action ι} (h : Spoken speechChunks s)
    (hcounted : Counted s) (hmoved : Moved speechChunks s action s') : Spoken speechChunks s' := by
  cases hmoved with
  | rested => exact ⟨h.nonblank, h.worker, h.queued, h.ended, h.heard⟩
  | submitted text =>
    refine h.of_quiet (.inr rfl) (fun _ => rfl) (fun _ => .inl) (fun _ _ hjob hleft => .inl ⟨hjob, hleft⟩)
      (fun job hjob => ?_) fun _ he => nomatch he
    rcases List.mem_append.mp hjob with hjob | hjob
    · exact .inl hjob
    · rw [List.mem_singleton.mp hjob]
      refine .inr (List.filterMap_eq_nil_iff.mpr fun e he => ?_)
      cases e with
      | audio job' chunk =>
        refine if_neg fun heq => ?_
        have hlt := hcounted.id_lt (h.heard job' chunk he)
        rw [heq] at hlt
        exact lt_irrefl _ hlt
      | _ => rfl
  | taken _ job jobs hworker hjobs =>
    refine h.of_quiet (e := .submitted job) (.inl rfl) (fun _ => rfl) (fun _ hjob => nomatch hjob)
      (fun job' left hjob hleft => .inr ?_) (fun job' hjob => .inl ?_) fun _ he => nomatch he
    · obtain rfl := Option.some.inj hjob
      obtain rfl := Option.some.inj hleft
      rw [h.queued job (by rw [hjobs]; exact List.mem_cons_self)]
      rfl
    · rw [hjobs]
      exact List.mem_cons_of_mem _ hjob
  | blank _ job hworker hblank =>
    refine h.of_quiet (.inr rfl) (fun _ => rfl) (fun _ hjob => nomatch hjob)
      (fun _ _ hjob => nomatch hjob) (fun _ => .inl) fun job' he => ?_
    cases he
    have hspoken := h.worker job (chunksOf speechChunks job) (by rw [hworker]; rfl)
      (by rw [hworker]; rfl)
    have hnone : chunksOf speechChunks job = [] := if_pos hblank
    rw [hnone, List.append_nil] at hspoken
    rw [hnone]
    exact hspoken
  | begun _ job hworker hblank =>
    refine h.of_quiet (e := .submitted job) (.inl rfl) (fun _ => rfl) (fun job' hjob => .inr ?_)
      (fun job' left hjob hleft => .inl ?_) (fun _ => .inl) fun _ he => nomatch he
    · rwa [← Option.some.inj hjob]
    · rw [hworker]
      exact ⟨hjob, hleft⟩
  | went _ job worker output outputFailed hold hnew hleft =>
    refine h.of_quiet (e := .submitted job) (.inl rfl) (fun _ => rfl) (fun job' hjob => .inl ?_)
      (fun job' left hjob hleft' => .inl ?_) (fun _ => .inl) fun _ he => nomatch he
    · rw [hold, ← hnew]
      exact hjob
    · have hjob' := Worker.job?_of_speaking? hnew
      rw [hleft.resolve_right (h.nonblank job hold), Worker.job?_of_speaking? hold, ← hjob']
      exact ⟨hjob, hleft'⟩
  | synthesized _ job chunk rest hworker =>
    refine h.of_quiet (.inr rfl) (fun _ => rfl) (fun job' hjob => .inl ?_)
      (fun job' left hjob hleft => .inl ?_) (fun _ => .inl) fun _ he => nomatch he
    · rw [hworker]
      exact hjob
    · rw [hworker]
      exact ⟨hjob, hleft⟩
  | sounded _ job chunk rest output hworker => exact h.of_sounded hcounted hworker output
  | finished _ job outcome hworker houtcome =>
    refine h.of_quiet (e := .submitted job) (.inl rfl) (fun _ => rfl) (fun _ hjob => nomatch hjob)
      (fun job' left hjob hleft => .inl ?_) (fun _ => .inl) fun _ he => nomatch he
    rcases houtcome with ⟨rfl, -⟩ | ⟨call, rfl, -⟩ | ⟨rfl, hdraining⟩
    · cases hleft
    · cases hleft
    · rw [hdraining] at hworker ⊢
      exact ⟨hjob, hleft⟩
  | ended _ job outcome hworker =>
    refine h.of_quiet (.inr rfl) (fun _ => rfl) (fun _ hjob => nomatch hjob)
      (fun _ _ hjob => nomatch hjob) (fun _ => .inl) fun job' he => ?_
    cases he
    have hspoken := h.worker job [] (by rw [hworker]; rfl) (by rw [hworker]; rfl)
    rwa [List.append_nil] at hspoken
  | marked call =>
    exact h.of_quiet (.inr rfl) (fun _ => rfl) (fun _ => .inl)
      (fun _ _ hjob hleft => .inl ⟨hjob, hleft⟩) (fun _ => .inl) fun _ he => nomatch he
  | ignored call =>
    exact h.of_quiet (.inr rfl) (fun _ => rfl) (fun _ => .inl)
      (fun _ _ hjob hleft => .inl ⟨hjob, hleft⟩) (fun _ => .inl) fun _ he => nomatch he
  | cleared => exact ⟨h.nonblank, h.worker, h.queued, h.ended, h.heard⟩
  | discarded call since job jobs hcall hjobs =>
    refine h.of_quiet (.inr rfl) (fun _ => rfl) (fun _ => .inl)
      (fun _ _ hjob hleft => .inl ⟨hjob, hleft⟩) (fun job' hjob => .inl ?_) fun _ he => nomatch he
    rw [hjobs]
    exact List.mem_cons_of_mem _ hjob
  | returned call =>
    exact h.of_quiet (.inr rfl) (fun _ => rfl) (fun _ => .inl)
      (fun _ _ hjob hleft => .inl ⟨hjob, hleft⟩) (fun _ => .inl) fun _ he => nomatch he

end Speaking

/-! A worker that is left to itself ends every reply. -/

section Idling

variable {ι : Type} [DecidableEq ι] {speechChunks : String → List String} {s : State ι}

/-- A step of the worker or of the audio callback. -/
def Action.OfWorker : Action ι → Prop
  | .work _ | .play => True
  | _ => False

/-- The worker can end its reply and go back to the queue. -/
def Idles (speechChunks : String → List String) (s : State ι) : Prop :=
  ∃ more, (∀ action ∈ more, Action.OfWorker action) ∧ (run speechChunks s more).worker = .waiting ∧
    (run speechChunks s more).jobs = s.jobs

def undisturbed : Environment := ⟨false, true, true⟩

theorem Idles.of_step (action : Action ι) (haction : action.OfWorker)
    (hjobs : (step speechChunks s action).jobs = s.jobs)
    (h : Idles speechChunks (step speechChunks s action)) : Idles speechChunks s := by
  obtain ⟨more, hmore, hworker, hrest⟩ := h
  refine ⟨action :: more, fun a ha => ?_, hworker, hrest.trans hjobs⟩
  rcases List.mem_cons.mp ha with rfl | ha
  · exact haction
  · exact hmore a ha

theorem Idles.of_work (worker : Worker ι)
    (hworker : (work speechChunks s undisturbed).worker = worker)
    (hjobs : (work speechChunks s undisturbed).jobs = s.jobs)
    (h : ∀ {s' : State ι}, s'.worker = worker → Idles speechChunks s') : Idles speechChunks s :=
  .of_step (.work undisturbed) trivial hjobs (h hworker)

theorem idles_waiting (h : s.worker = .waiting) : Idles speechChunks s :=
  ⟨[], fun _ ha => (List.not_mem_nil ha).elim, h, rfl⟩

theorem idles_finishing {job : Job} {outcome : Outcome ι} (h : s.worker = .finishing job outcome) :
    Idles speechChunks s := by
  refine .of_work .waiting ?_ ?_ idles_waiting <;>
    simp only [work, advance, h, undisturbed, State.record]

theorem idles_draining {job : Job} (output : List String) :
    ∀ {s : State ι}, s.worker = .draining job → s.output.getD [] = output → Idles speechChunks s := by
  induction output with
  | nil =>
    intro s hworker houtput
    cases hflag : s.interruptedBy? with
    | none =>
      refine .of_work (.finishing job .enqueued) ?_ ?_ idles_finishing <;>
        simp only [work, advance, hworker, undisturbed, houtput, ne_eq, not_true_eq_false,
          if_false, hflag]
    | some call =>
      refine .of_work (.finishing job (.interrupted call)) ?_ ?_ idles_finishing <;>
        simp only [work, advance, hworker, undisturbed, houtput, ne_eq, not_true_eq_false,
          if_false, hflag]
  | cons chunk output ih =>
    intro s hworker houtput
    refine .of_step .play trivial rfl (ih hworker ?_)
    cases hout : s.output with
    | none =>
      rw [hout] at houtput
      cases houtput
    | some chunks =>
      rw [hout] at houtput
      change ((s.output.map List.tail).getD []) = output
      rw [hout]
      exact congrArg List.tail houtput

section Turn

variable {job : Job} {chunk : String} {rest : List String}
  (hnext : ∀ {s : State ι}, s.worker = .checking job rest → Idles speechChunks s)

include hnext

theorem idles_producing (h : s.worker = .producing job chunk rest) : Idles speechChunks s := by
  refine .of_work (.checking job rest) ?_ ?_ hnext <;>
    simp only [work, advance, h, undisturbed, State.record]

theorem idles_synthesizing (h : s.worker = .synthesizing job chunk rest) :
    Idles speechChunks s := by
  cases hflag : s.interruptedBy? with
  | none =>
    refine .of_work (.producing job chunk rest) ?_ ?_ (idles_producing hnext) <;>
      simp only [work, advance, h, undisturbed, hflag]
  | some call =>
    refine .of_work (.finishing job (.interrupted call)) ?_ ?_ idles_finishing <;>
      simp only [work, advance, h, undisturbed, hflag]

theorem idles_starting (h : s.worker = .starting job chunk rest) : Idles speechChunks s := by
  refine .of_work (.synthesizing job chunk rest) ?_ ?_ (idles_synthesizing hnext) <;>
    simp only [work, advance, h, undisturbed, State.record]

end Turn

theorem idles_checking {job : Job} (rest : List String) :
    ∀ {s : State ι}, s.worker = .checking job rest → Idles speechChunks s := by
  induction rest with
  | nil =>
    intro s hworker
    refine .of_work (.draining job) ?_ ?_ fun h => idles_draining _ h rfl <;>
      simp only [work, advance, hworker, undisturbed]
  | cons chunk rest ih =>
    intro s hworker
    cases hflag : s.interruptedBy? with
    | none =>
      refine .of_work (.starting job chunk rest) ?_ ?_ (idles_starting ih) <;>
        simp only [work, advance, hworker, undisturbed, hflag]
    | some call =>
      refine .of_work (.finishing job (.interrupted call)) ?_ ?_ idles_finishing <;>
        simp only [work, advance, hworker, undisturbed, hflag]

theorem idles_begun {job : Job} (h : s.worker = .begun job) : Idles speechChunks s := by
  refine .of_work (.checking job (speechChunks (clean job.text))) ?_ ?_
    (idles_checking _)
  · simp only [work, advance, h, undisturbed]
  · simp only [work, advance, h, undisturbed, setUpOutput, if_true]
    split <;> rfl

theorem idles_taken {job : Job} (h : s.worker = .taken job) : Idles speechChunks s := by
  by_cases hblank : clean job.text = ""
  · refine .of_work .waiting ?_ ?_ idles_waiting <;>
      simp only [work, advance, h, undisturbed, if_pos hblank, State.record]
  · refine .of_work (.begun job) ?_ ?_ idles_begun <;>
      simp only [work, advance, h, undisturbed, if_neg hblank]

variable (speechChunks) in
theorem idles (s : State ι) : Idles speechChunks s := by
  cases hworker : s.worker with
  | waiting => exact idles_waiting hworker
  | taken job => exact idles_taken hworker
  | begun job => exact idles_begun hworker
  | checking job rest => exact idles_checking rest hworker
  | starting job chunk rest => exact idles_starting (idles_checking rest) hworker
  | synthesizing job chunk rest => exact idles_synthesizing (idles_checking rest) hworker
  | producing job chunk rest => exact idles_producing (idles_checking rest) hworker
  | draining job => exact idles_draining _ hworker rfl
  | finishing job outcome => exact idles_finishing hworker

variable (speechChunks) in
/-- The worker can empty the queue. -/
theorem empties (jobs : List Job) : ∀ s : State ι, s.jobs = jobs →
    ∃ more, (∀ action ∈ more, Action.OfWorker action) ∧
      (run speechChunks s more).worker = .waiting ∧ (run speechChunks s more).jobs = [] := by
  induction jobs with
  | nil =>
    intro s hjobs
    obtain ⟨more, hmore, hworker, hrest⟩ := idles speechChunks s
    exact ⟨more, hmore, hworker, hrest.trans hjobs⟩
  | cons job jobs ih =>
    intro s hjobs
    obtain ⟨more, hmore, hworker, hrest⟩ := idles speechChunks s
    have hnext : (step speechChunks (run speechChunks s more) (.work undisturbed)).jobs = jobs := by
      simp only [step, work, advance, hworker, undisturbed, hrest, hjobs]
    obtain ⟨more', hmore', hdone⟩ := ih _ hnext
    refine ⟨more ++ .work undisturbed :: more', fun action haction => ?_, ?_⟩
    · rcases List.mem_append.mp haction with haction | haction
      · exact hmore action haction
      · rcases List.mem_cons.mp haction with rfl | haction
        · trivial
        · exact hmore' action haction
    · rw [run, List.foldl_append]
      exact hdone

end Idling
end ReframeSpeech
