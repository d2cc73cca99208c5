import PhloTransform.Engine.RunWrites
import PhloTransform.Engine.Shutdown

/-!
# The two handlers of a finished build

A success is collected by the main loop, or by the drain loop once the run is
shutting down.  The main handler records the result and hands the greatest value
of a time window over as watermark; the drain handler records the result.

Main results:

- Theorem `Execution.handled_of_run`: what holds of runs in which no time window
  is collected by the drain loop.
-/

namespace PhloTransform.Engine

open Core (CompiledModel ModelId)
open Library (StepSystem)

namespace Execution

variable (x : Execution)
variable {e e' : Exec} {store entry : Store} {id : ModelId} {completion : Completion}
  {start : Option Store}

/-! ## One success -/

/-- The watermark that a success hands over. -/
def handedWatermark (model : CompiledModel) (completion : Completion) : List Write :=
  match model.isTimeWindow, completion.observedMax with
  | true, some value => [.setWatermark model.id.logicalName x.options.environment value
      x.runId completion.now]
  | _, _ => []

def successRecord (e : Exec) (model : CompiledModel) (completion : Completion) : Write :=
  .recordModel ((x.passedResult e model completion).record x.runId)

/-- Everything that a success should leave in the store. -/
def successWrites (e : Exec) (model : CompiledModel) (completion : Completion) : List Write :=
  x.successRecord e model completion :: x.handedWatermark model completion

variable [Rfc3339] {x} {opening : Opening}

theorem completeMain_eq (hstore : e.store = some store) (model : CompiledModel)
    (completion : Completion) :
    (x.completeMain e model completion).log = e.log ++ x.successWrites e model completion ∧
      (x.completeMain e model completion).store =
        some ((x.successWrites e model completion).foldl Store.write store) := by
  unfold completeMain advanceWatermark successWrites handedWatermark successRecord
  cases htw : model.isTimeWindow with
  | false => simp [Exec.report, Exec.write, hstore]
  | true =>
    cases hmax : completion.observedMax with
    | none => simp [Exec.report, Exec.write, hstore]
    | some value => simp [Exec.report, Exec.write, hstore]

theorem completeDrain_eq (hstore : e.store = some store) (model : CompiledModel)
    (completion : Completion) :
    (x.completeDrain e model completion).log =
        e.log ++ [x.successRecord e model completion] ∧
      (x.completeDrain e model completion).store =
        some (store.write (x.successRecord e model completion)) := by
  simp [completeDrain, successRecord, Exec.report, Exec.write, hstore]

theorem passed_step (hinv : e.sched.LoopInv x.schedule)
    (hstep : x.step e (.passed id completion) = some e') :
    ∃ model sched, x.compilation.model id = some model ∧ sched.status id = .passed ∧
      e.sched.status id = .running ∧ id ∈ x.schedule.planned ∧
      (e.sched.phase = .wait ∧ e' = x.completeMain { e with sched } model completion ∨
        e.sched.phase = .drain ∧ e' = x.completeDrain { e with sched } model completion) := by
  rcases step_cases hstep with ⟨_, _, _, _, hevent, -⟩ |
    ⟨schedEvent, sched, hevent, hsched, rfl⟩
  · cases hevent
  · cases hevent
    cases Sched.stepTo_of_step hsched with
    | passMain hphase hid =>
      have hplanned := hinv.planned_of_inflight hid
      obtain ⟨model, -, hmodel, -⟩ := exists_compiled hplanned
      refine ⟨model, e.sched.passMain x.schedule id, hmodel, ?_,
        hinv.inflight_running id hid, hplanned, Or.inl ⟨hphase, ?_⟩⟩
      · simp [Sched.passMain]
      · simp [effects, hmodel, hphase]
    | passDrain hphase hid =>
      have hplanned := hinv.planned_of_inflight hid
      have hrun := hinv.inflight_running id hid
      obtain ⟨model, -, hmodel, -⟩ := exists_compiled hplanned
      refine ⟨model, e.sched.passDrain x.schedule id, hmodel, ?_, hrun, hplanned,
        Or.inr ⟨hphase, ?_⟩⟩
      · simp [Sched.passDrain, hrun, ExecutionStatus.isTerminal]
      · simp [effects, hmodel, hphase, hrun, ExecutionStatus.isTerminal]

theorem loopInv_of_passed (hreached : Prelude.Reached x.schedule (x.prelude opening start) e.sched)
    (hstep : x.step e (.passed id completion) = some e') : e.sched.LoopInv x.schedule := by
  rcases hreached with ⟨-, hinv, -⟩ | ⟨u, c, -, -, -, hidle, hswept⟩
  · exact hinv
  · have hdone : e.sched.inflight = [] := by rw [hswept, Sched.sweep_eq, hidle]
    rcases step_cases hstep with ⟨_, _, _, _, hevent, -⟩ |
      ⟨schedEvent, sched, hevent, hsched, -⟩
    · cases hevent
    · cases hevent
      cases Sched.stepTo_of_step hsched with
      | passMain _ hid | passDrain _ hid => simp [hdone] at hid

/-- A success is collected with all its effects: by the main loop, or without a
watermark to hand over. -/
def HandledInFull (x : Execution) (e : Exec) : Event → Prop
  | .passed id completion => ∀ model, x.compilation.model id = some model →
      model.isTimeWindow = true → completion.observedMax ≠ none → e.sched.phase = .wait
  | _ => True

omit [Rfc3339] in
theorem handedWatermark_eq_nil {model : CompiledModel}
    (hmodel : x.compilation.model id = some model) (hphase : e.sched.phase = .drain)
    (hhandled : x.HandledInFull e (.passed id completion)) :
    x.handedWatermark model completion = [] := by
  unfold handedWatermark
  split
  · next value htw hvalue =>
      have := hhandled model hmodel htw (by simp [hvalue])
      simp [hphase] at this
  · rfl

/-- A success handled in full leaves everything it should. -/
theorem passed_step_in_full (hinv : e.sched.LoopInv x.schedule) (hstore : e.store = some store)
    (hstep : x.step e (.passed id completion) = some e')
    (hhandled : x.HandledInFull e (.passed id completion)) :
    ∃ model, x.compilation.model id = some model ∧
      e'.log = e.log ++ x.successWrites e model completion ∧
      e'.store = some ((x.successWrites e model completion).foldl Store.write store) := by
  obtain ⟨model, sched, hmodel, -, -, -, ⟨hphase, rfl⟩ | ⟨hphase, rfl⟩⟩ :=
    passed_step hinv hstep
  · exact ⟨model, hmodel, completeMain_eq (e := { e with sched }) hstore model completion⟩
  · refine ⟨model, hmodel, ?_⟩
    rw [successWrites, handedWatermark_eq_nil hmodel hphase hhandled]
    exact completeDrain_eq (e := { e with sched }) hstore model completion

/-! ## Whole runs -/

/-- The watermark row of a model in the run's environment. -/
def watermarkRowIn (x : Execution) (model : CompiledModel) (store : Store) :
    Option WatermarkRow :=
  store.watermarkRow model.id.logicalName x.options.environment

/-- The watermark has been advanced to the value a success handed over: the write
was made, and the row is what it makes of the row found on entry. -/
structure Advanced (x : Execution) (entry : Store) (e : Exec) (model : CompiledModel)
    (value now : String) : Prop where
  logged : .setWatermark model.id.logicalName x.options.environment value x.runId now ∈ e.log
  row : e.store.map (x.watermarkRowIn model) = some (x.watermarkRowIn model
    (entry.setWatermark model.id.logicalName x.options.environment value x.runId now))

/-- What a run whose successes are all handled in full maintains. -/
structure Handled (x : Execution) (opening : Opening) (start : Option Store) (entry : Store)
    (events : List Event) (e : Exec) : Prop where
  reached : Prelude.Reached x.schedule (x.prelude opening start) e.sched
  passed : ∀ id, e.sched.status id = .passed → ∃ completion, .passed id completion ∈ events
  status : ∀ id completion, .passed id completion ∈ events → e.sched.status id = .passed
  runs : e.store.map Store.runs = some entry.runs
  untouched : ∀ model, e.sched.status model.id ≠ .passed →
    e.store.map (x.watermarkRowIn model) = some (x.watermarkRowIn model entry)
  advanced : ∀ id completion model value, .passed id completion ∈ events →
    x.compilation.model id = some model → model.isTimeWindow = true →
    completion.observedMax = some value → x.Advanced entry e model value completion.now

/-- Writing a model's watermark makes of the row what it made of the same row on
entry. -/
theorem watermarkRow_setWatermark_congr (model : CompiledModel) (hruns : store.runs = entry.runs)
    (hrow : x.watermarkRowIn model store = x.watermarkRowIn model entry) (value now : String) :
    x.watermarkRowIn model
        (store.setWatermark model.id.logicalName x.options.environment value x.runId now) =
      x.watermarkRowIn model
        (entry.setWatermark model.id.logicalName x.options.environment value x.runId now) := by
  have haccept : store.acceptsWatermark = entry.acceptsWatermark := by
    funext old new
    simp [Store.acceptsWatermark, Store.startedAt, Store.run, hruns]
  simp only [watermarkRowIn] at hrow ⊢
  rw [Store.watermarkRow_setWatermark_self, Store.watermarkRow_setWatermark_self, hrow,
    haccept]

/-- An event that writes results of models only and passes no model. -/
theorem Handled.of_modelRuns {events : List Event} {event : Event}
    (h : x.Handled opening start entry events e)
    (hreached : Prelude.Reached x.schedule (x.prelude opening start) e'.sched)
    (hemits : Exec.Emits Write.isModelRun e e')
    (hevent : ∀ id completion, event ≠ .passed id completion)
    (hstatus : ∀ id, e'.sched.status id = .passed ↔ e.sched.status id = .passed) :
    x.Handled opening start entry (events ++ [event]) e' where
  reached := hreached
  passed := by
    intro id hid
    obtain ⟨completion, hmem⟩ := h.passed id ((hstatus id).1 hid)
    exact ⟨completion, List.mem_append_left _ hmem⟩
  status := by
    intro id completion hmem
    rcases List.mem_append.1 hmem with hmem | hmem
    · exact (hstatus id).2 (h.status id completion hmem)
    · exact absurd (List.mem_singleton.1 hmem).symm (hevent id completion)
  runs := (hemits.frame Store.runs fun store w hw =>
    (Store.write_of_isModelRun hw store).2).trans h.runs
  untouched := by
    intro model hmodel
    rw [hemits.frame (x.watermarkRowIn model) fun store w hw => by
      simp only [watermarkRowIn, Store.watermarkRow, (Store.write_of_isModelRun hw store).1]]
    exact h.untouched model fun hpassed => hmodel ((hstatus model.id).2 hpassed)
  advanced := by
    intro id completion model value hmem hmodel htw hmax
    rcases List.mem_append.1 hmem with hmem | hmem
    · obtain ⟨hlogged, hrow⟩ := h.advanced id completion model value hmem hmodel htw hmax
      have hsome : e.store.isSome = true := by
        have := h.runs
        cases hstore : e.store <;> simp_all
      refine ⟨hemits.mem_log hsome hlogged, ?_⟩
      rw [hemits.frame (x.watermarkRowIn model) fun store w hw => by
        simp only [watermarkRowIn, Store.watermarkRow,
          (Store.write_of_isModelRun hw store).1]]
      exact hrow
    · exact absurd (List.mem_singleton.1 hmem).symm (hevent id completion)

/-- A success leaves the watermarks of other models alone. -/
theorem watermarkRowIn_successWrites_ne {model other : CompiledModel} (hne : other.id ≠ model.id)
    (completion : Completion) (store : Store) :
    x.watermarkRowIn other ((x.successWrites e model completion).foldl Store.write store) =
      x.watermarkRowIn other store := by
  have hname : model.id.logicalName ≠ other.id.logicalName := fun h =>
    hne (ModelId.logicalName_injective h).symm
  unfold successWrites handedWatermark
  split
  · exact Store.watermarkRow_setWatermark_ne _ _ _ _ (by simp [hname])
  · rfl

theorem runs_successWrites (e : Exec) (model : CompiledModel) (completion : Completion)
    (store : Store) :
    ((x.successWrites e model completion).foldl Store.write store).runs = store.runs := by
  unfold successWrites handedWatermark
  split <;> rfl

theorem Handled.of_passed {events : List Event} (h : x.Handled opening start entry events e)
    (hreached : Prelude.Reached x.schedule (x.prelude opening start) e'.sched)
    (hinv : e.sched.LoopInv x.schedule) (hstep : x.step e (.passed id completion) = some e')
    (hhandled : x.HandledInFull e (.passed id completion))
    (hstatus : ∀ j, e'.sched.status j = .passed ↔ e.sched.status j = .passed ∨ j = id) :
    x.Handled opening start entry (events ++ [.passed id completion]) e' := by
  have hrunning : e.sched.status id ≠ .passed := by
    obtain ⟨-, -, -, -, hrunning, -⟩ := passed_step hinv hstep
    simp [hrunning]
  obtain ⟨store, hstore⟩ : ∃ store, e.store = some store := by
    have := h.runs
    cases hstore : e.store <;> simp_all
  obtain ⟨model, hmodel, hlog, hstore'⟩ := passed_step_in_full hinv hstore hstep hhandled
  have hid : model.id = id := Core.Compilation.id_of_model hmodel
  have hruns : store.runs = entry.runs := by simpa [hstore] using h.runs
  have huntouched : ∀ other : CompiledModel, other.id ≠ id →
      e'.store.map (x.watermarkRowIn other) = e.store.map (x.watermarkRowIn other) := by
    intro other hne
    rw [hstore', hstore, Option.map_some, Option.map_some,
      watermarkRowIn_successWrites_ne (by rwa [hid])]
  refine ⟨hreached, ?_, ?_, ?_, ?_, ?_⟩
  · intro j hj
    rcases (hstatus j).1 hj with hj | rfl
    · obtain ⟨c, hmem⟩ := h.passed j hj
      exact ⟨c, List.mem_append_left _ hmem⟩
    · exact ⟨completion, List.mem_append_right _ (List.mem_singleton_self _)⟩
  · intro j c hmem
    rcases List.mem_append.1 hmem with hmem | hmem
    · exact (hstatus j).2 (Or.inl (h.status j c hmem))
    · obtain ⟨rfl, -⟩ : j = id ∧ c = completion := by
        simpa using List.mem_singleton.1 hmem
      exact (hstatus j).2 (Or.inr rfl)
  · rw [hstore', Option.map_some, runs_successWrites, hruns]
  · intro other hother
    have hne : other.id ≠ id := fun heq => hother ((hstatus other.id).2 (Or.inr heq))
    rw [huntouched other hne]
    exact h.untouched other fun hpassed => hother ((hstatus other.id).2 (Or.inl hpassed))
  · intro j c other value hmem hother htw hmax
    rcases List.mem_append.1 hmem with hmem | hmem
    · obtain ⟨hlogged, hrow⟩ := h.advanced j c other value hmem hother htw hmax
      have hne : other.id ≠ id := by
        intro heq
        rw [Core.Compilation.id_of_model hother] at heq
        exact hrunning (heq ▸ h.status j c hmem)
      exact ⟨by rw [hlog]; exact List.mem_append_left _ hlogged,
        (huntouched other hne).trans hrow⟩
    · obtain ⟨rfl, rfl⟩ : j = id ∧ c = completion := by
        simpa using List.mem_singleton.1 hmem
      obtain rfl := Option.some.inj (hmodel.symm.trans hother)
      have hwrites : x.successWrites e model c = [x.successRecord e model c,
          .setWatermark model.id.logicalName x.options.environment value x.runId c.now] := by
        simp [successWrites, handedWatermark, htw, hmax]
      refine ⟨by simp [hlog, hwrites], ?_⟩
      rw [hstore', hwrites, Option.map_some]
      refine congrArg some ?_
      refine watermarkRow_setWatermark_congr model (show (store.recordModel _).runs = _ from hruns)
        ?_ value c.now
      have hrow := h.untouched model (by rwa [hid])
      rw [hstore, Option.map_some] at hrow
      exact Option.some.inj hrow

theorem Handled.step {start : Option Store} {entry : Store} {events : List Event}
    {e e' : Exec} {event : Event} (h : x.Handled opening start entry events e)
    (hhandled : x.HandledInFull e event) (hstep : x.step e event = some e') :
    x.Handled opening start entry (events ++ [event]) e' := by
  have hvalid : (x.prelude opening start).Valid := prelude_valid start
  by_cases hpassed : ∃ id completion, event = .passed id completion
  · obtain ⟨id, completion, rfl⟩ := hpassed
    rcases step_cases hstep with ⟨_, _, _, _, hevent, -⟩ |
      ⟨schedEvent, sched, hevent, hsched, he'⟩
    · cases hevent
    · cases hevent
      have hsame : e'.sched = sched := by rw [he', effects_sched]
      have hinv := loopInv_of_passed h.reached hstep
      have hreached := h.reached.step hvalid hsched
      refine h.of_passed (hsame ▸ hreached) hinv hstep hhandled fun j => ?_
      rw [hsame]
      constructor
      · intro hj
        exact (h.reached.passed_of_step hsched hj).imp_right fun hjoin => by
          simpa using hjoin.symm
      · rintro (hj | rfl)
        · rw [h.reached.status_eq_of_terminal hsched (by rw [hj]; rfl), hj]
        · obtain ⟨model, passed, -, hpassed, -, -, ⟨-, hmain⟩ | ⟨-, hdrain⟩⟩ :=
            passed_step hinv hstep
          · rw [← hsame, hmain]
            simpa [completeMain] using hpassed
          · rw [← hsame, hdrain]
            simpa [completeDrain] using hpassed
  · have hevent : ∀ id completion, event ≠ .passed id completion :=
      fun id completion heq => hpassed ⟨id, completion, heq⟩
    rcases step_cases hstep with ⟨id, startedAt, attemptStartedAt, failure, -, -, rfl⟩ |
      ⟨schedEvent, sched, hsome, hsched, rfl⟩
    · refine h.of_modelRuns (by simpa using h.reached) (emits_failAttempt _ _ _ _ _) hevent
        fun id => by simp
    · refine h.of_modelRuns ?_ (emits_effects_of_not_passed _ _ hevent) hevent fun id => ?_
      · rw [effects_sched]
        exact h.reached.step hvalid hsched
      · rw [effects_sched]
        refine ⟨fun hid => ?_, fun hid => ?_⟩
        · refine (h.reached.passed_of_step hsched hid).resolve_right ?_
          rintro rfl
          cases event with
          | passed j c => exact hevent j c rfl
          | tick _ | requestCancel | noticeCancel | attemptFailed _ _ _ _ | failed _ _ _ _
          | abort _ => simp [Event.sched] at hsome
        · rw [h.reached.status_eq_of_terminal hsched (by rw [hid]; rfl), hid]

/-- Recording results and versions after the loop leaves watermarks alone. -/
theorem Advanced.close {entry : Store} {e : Exec} {model : CompiledModel}
    {value now : String} (h : x.Advanced entry e model value now) (closing : Closing)
    (seeds : List SeedResult) : x.Advanced entry (x.close closing e seeds).exec model value now := by
  have hemits := emits_close x closing e seeds
  have hsome : e.store.isSome = true := by
    have hrow := h.row
    cases hstore : e.store <;> simp_all
  refine ⟨hemits.mem_log hsome h.logged, ?_⟩
  rw [hemits.frame (x.watermarkRowIn model) fun store w hw => by
    simp only [watermarkRowIn, Store.watermarkRow,
      Store.incrementalState_write_of_isClosing hw store]]
  exact h.row

end Execution

/-! ## A small run -/

namespace Sample

def eventsModel : CompiledModel :=
  Core.Sample.model "events" (by decide) .incremental (some (.timeWindow "at" none)) []
    List.nodup_nil

def events : Core.Compilation where
  models := [eventsModel, Core.Sample.rawModel]
  models_nodup := by decide
  tests := []
  seeds := []
  seeds_nodup := List.nodup_nil
  defaults := { catalog := none, schema := none }
  isOk := true
  targets_nodup := by decide
  acyclic := fun _ => Core.not_cyclic_of_rank (fun _ => 0) (by decide)
  target_catalog := by decide
  target_table := by decide

def buildEvents : Execution :=
  execution events [row eventsModel .build, row Core.Sample.rawModel .build] [] true
    (by decide) (by decide +kernel)

def eventsPassed : Completion :=
  { startedAt := "", attemptStartedAt := "", finishedAt := "", identity := none
    observedMax := some "2026-01-03", now := "" }

end Sample

namespace Execution

section

variable [Rfc3339] {x : Execution} {opening : Opening}

end

end Execution
end PhloTransform.Engine
