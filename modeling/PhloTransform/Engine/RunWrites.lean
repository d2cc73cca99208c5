import PhloTransform.Engine.SeedLoads

/-!
# What each part of a run writes

Loading seeds and testing write history only, the loop writes model results and
watermarks, carrying a model over and recording a built one each write about that
model, and recording a seed writes about that seed.

Main results:

- Theorem `Execution.emits_loadSeeds`: the writes before the loop.
- Theorem `Execution.emits_loop`: the writes of the loop.
-/

namespace PhloTransform.Engine

open Core (CompiledModel CompiledSeed CompiledTest ModelId)
open Library (StepSystem)

/-! ## Kinds of writes -/

namespace Write

variable {w : Write}

/-- The write records the result of a model. -/
def isModelRun : Write → Prop
  | .recordModel _ => True
  | _ => False

/-- The write belongs to the loop: a model's result or a watermark. -/
def isLoopWrite : Write → Prop
  | .recordModel _ | .setWatermark _ _ _ _ _ => True
  | _ => False

/-- The write concerns the history of one run only. -/
def isHistory : Write → Prop
  | .startRun _ _ | .reopenRun _ | .recordModel _ | .recordSeedRun _ | .recordTest _
  | .finishRun _ _ _ _ => True
  | .recordMaterialized _ | .recordSeed _ | .setWatermark _ _ _ _ _ => False

/-- The write is about one model: a result, a watermark or its materialisation. -/
def isAbout (modelId : String) : Write → Prop
  | .recordModel _ | .setWatermark _ _ _ _ _ => True
  | .recordMaterialized record => record.modelId = modelId
  | _ => False

def isLoadOf (name : String) : Write → Prop
  | .recordSeed record => record.name = name
  | _ => False

/-- The write belongs to the end of a run. -/
def isClosing : Write → Prop
  | .recordTest _ | .recordMaterialized _ | .recordSeed _ | .finishRun _ _ _ _ => True
  | _ => False

theorem isClosing_of_isLoadOf {name : String} (h : w.isLoadOf name) : w.isClosing := by
  cases w <;> first | exact trivial | exact h.elim

theorem isLoopWrite_of_isModelRun (h : w.isModelRun) : w.isLoopWrite := by
  cases w <;> first | exact trivial | exact h.elim

theorem isHistory_of_isModelRun (h : w.isModelRun) : w.isHistory := by
  cases w <;> first | exact trivial | exact h.elim

end Write

namespace Store

variable [Rfc3339]

theorem write_of_isModelRun {w : Write} (h : w.isModelRun) (store : Store) :
    (store.write w).incrementalState = store.incrementalState ∧
      (store.write w).runs = store.runs := by
  cases w with
  | recordModel record => exact ⟨rfl, rfl⟩
  | _ => exact h.elim

theorem incrementalState_write_of_isClosing {w : Write} (h : w.isClosing) (store : Store) :
    (store.write w).incrementalState = store.incrementalState := by
  cases w with
  | recordTest _ | recordMaterialized _ | recordSeed _ | finishRun _ _ _ _ => rfl
  | _ => exact h.elim

end Store

namespace Execution

open Exec (Emits)

variable [Rfc3339] {x : Execution} {opening : Opening} {closing : Closing}
variable {P : Write → Prop}
variable {event : Event} {seeds : List SeedResult}

/-! ## The loop -/

theorem emits_persistRunning (e : Exec) (id : ModelId) (startedAt : String)
    (attempts : List Attempt) (failure : Option FailureCategory) :
    Emits Write.isModelRun e (x.persistRunning e id startedAt attempts failure) := by
  unfold persistRunning
  split
  · exact Exec.emits_write trivial e
  · exact .of_eq rfl rfl

theorem emits_failAttempt (e : Exec) (id : ModelId) (startedAt attemptStartedAt : String)
    (failure : FailureCategory) :
    Emits Write.isModelRun e (x.failAttempt e id startedAt attemptStartedAt failure) := by
  have hkept : Emits Write.isModelRun e (x.keepFailure e id attemptStartedAt failure) :=
    .of_eq rfl rfl
  exact hkept.trans (emits_persistRunning _ _ _ _ _)

theorem emits_reportAll (status : ExecutionStatus) (failure : FailureCategory) (e : Exec)
    (ids : List ModelId) : Emits Write.isModelRun e (x.reportAll status failure e ids) := by
  refine Exec.emits_foldl (fun e id _ => ?_) e
  split
  · exact Exec.emits_report _ _ _ trivial e
  · exact .of_eq rfl rfl

theorem emits_sched (e : Exec) (sched : Sched) : Emits P e { e with sched } :=
  .of_eq rfl rfl

/-- Every event but a success writes results of models only. -/
theorem emits_effects_of_not_passed (e : Exec) (sched : Sched)
    (h : ∀ id completion, event ≠ .passed id completion) :
    Emits Write.isModelRun e (x.effects e sched event) := by
  cases event with
  | tick now =>
    simp only [effects]
    split
    · split
      · exact (emits_sched e sched).trans (emits_persistRunning _ _ _ _ _)
      · exact emits_sched e sched
    · exact (emits_sched e sched).trans (emits_reportAll _ _ _ _)
    · exact emits_sched e sched
  | passed id completion => exact absurd rfl (h id completion)
  | failed id startedAt finishedAt failure =>
    simp only [effects]
    split
    · split
      · exact emits_sched e sched
      · exact ((emits_sched e sched).trans (Exec.emits_report _ _ _ trivial _)).trans
          (emits_reportAll _ _ _ _)
    · exact emits_sched e sched
  | requestCancel | noticeCancel | abort _ | attemptFailed _ _ _ _ => exact emits_sched e sched

theorem emits_advanceWatermark (e : Exec) (model : CompiledModel) (completion : Completion) :
    Emits Write.isLoopWrite e (x.advanceWatermark e model completion) := by
  unfold advanceWatermark
  split
  · split
    · exact Exec.emits_write trivial e
    · exact .of_eq rfl rfl
  · exact .of_eq rfl rfl

theorem emits_effects (e : Exec) (sched : Sched) (event : Event) :
    Emits Write.isLoopWrite e (x.effects e sched event) := by
  by_cases hpassed : ∃ id completion, event = .passed id completion
  · obtain ⟨id, completion, rfl⟩ := hpassed
    simp only [effects]
    split
    · split
      · exact ((emits_sched e sched).trans (Exec.emits_report _ _ _ trivial _)).trans
          (emits_advanceWatermark _ _ _)
      · split
        · exact emits_sched e sched
        · exact (emits_sched e sched).trans (Exec.emits_report _ _ _ trivial _)
    · exact emits_sched e sched
  · refine (emits_effects_of_not_passed e sched fun id completion h => ?_).mono
      fun _ => Write.isLoopWrite_of_isModelRun
    exact hpassed ⟨id, completion, h⟩

theorem emits_step {e e' : Exec} (h : x.step e event = some e') : Emits Write.isLoopWrite e e' := by
  rcases step_cases h with ⟨id, startedAt, attemptStartedAt, failure, -, -, rfl⟩ |
    ⟨-, sched, -, -, rfl⟩
  · exact (emits_failAttempt _ _ _ _ _).mono fun _ => Write.isLoopWrite_of_isModelRun
  · exact emits_effects _ _ _

theorem emits_loop {e e' : Exec} {events : List Event} (h : x.loop.run e events = some e') :
    Emits Write.isLoopWrite e e' :=
  x.loop.run_rel (R := Emits Write.isLoopWrite) (fun _ => .of_eq rfl rfl)
    (fun _ _ _ => Emits.trans) (fun _ _ _ => emits_step) h

/-! ## Before the loop -/

theorem emits_loadSeed (s : SeedLoads) (planned : PlannedSeed) :
    Emits Write.isHistory s.exec (x.loadSeed opening s planned).exec := by
  have hreport : ∀ (s : SeedLoads) (startedAt finishedAt : String) (result : SeedResult),
      Emits Write.isHistory s.exec (s.report x.runId startedAt finishedAt result).exec :=
    fun s startedAt finishedAt result => Exec.emits_write trivial s.exec
  unfold loadSeed
  split
  · exact .of_eq rfl rfl
  · simp only
    split
    · exact hreport ..
    · split
      · split
        · split
          · exact .of_eq rfl rfl
          · exact hreport ..
        · exact hreport ..
      · refine Emits.trans ?_ (hreport ..)
        exact Exec.emits_foldl (fun e attempt _ => Exec.emits_write trivial e) s.exec

variable (x opening) in
/-- Opening the run and loading the seeds write history only. -/
theorem emits_loadSeeds (store : Option Store) :
    Emits Write.isHistory (x.fresh store) (x.loadSeeds opening store).exec := by
  have hopen : Emits Write.isHistory (x.fresh store) (x.openRun opening store) := by
    unfold openRun
    split <;> exact Exec.emits_write trivial _
  have hfold : ∀ (seeds : List PlannedSeed) (s : SeedLoads),
      Emits Write.isHistory s.exec (seeds.foldl (x.loadSeed opening) s).exec := by
    intro seeds
    induction seeds with
    | nil => exact fun s => .of_eq rfl rfl
    | cons planned seeds ih => exact fun s => (emits_loadSeed s planned).trans (ih _)
  exact hopen.trans (hfold x.plan.seeds _)

theorem emits_reuseOne (e : Exec) (id : ModelId) : Emits P e (x.reuseOne e id) := by
  unfold reuseOne
  split
  · split <;> exact .of_eq rfl rfl
  · exact .of_eq rfl rfl

theorem emits_blockSeedReaderOne (failed : List String) (e : Exec) (id : ModelId) :
    Emits Write.isModelRun e (x.blockSeedReaderOne failed e id) := by
  unfold blockSeedReaderOne
  split
  · exact (emits_sched e _).trans (emits_reportAll _ _ _ _)
  · exact .of_eq rfl rfl

/-! ## After the loop -/

variable (x closing) in
theorem emits_runTests (failed : List String) (tests : List CompiledTest) (runs : TestRuns) :
    Emits (fun w => w.isHistory ∧ w.isClosing) runs.exec
      (tests.foldl (x.runTest closing failed) runs).exec := by
  induction tests generalizing runs with
  | nil => exact .of_eq rfl rfl
  | cons test tests ih => exact (Exec.emits_write ⟨trivial, trivial⟩ runs.exec).trans (ih _)

theorem emits_recordPassed (e : Exec) (id : ModelId) :
    Emits (fun w => w.isAbout id.logicalName ∧ w.isClosing) e (x.recordPassed closing e id) := by
  unfold recordPassed
  split
  · next result model _ hmodel =>
      obtain rfl := Core.Compilation.id_of_model hmodel
      split
      · exact Exec.emits_write ⟨rfl, trivial⟩ e
      · exact .of_eq rfl rfl
  · exact .of_eq rfl rfl

theorem emits_recordLoaded (e : Exec) (result : SeedResult) :
    Emits (Write.isLoadOf result.seed) e (x.recordLoaded closing e result) := by
  unfold recordLoaded
  split
  · next seed hseed =>
      have hname : seed.name = result.seed := by simpa using List.find?_some hseed
      split
      · exact Exec.emits_write hname e
      · exact .of_eq rfl rfl
  · exact .of_eq rfl rfl

/-! ## Whole runs -/

/-- The writes before the loop, by those of settling one model. -/
theorem emits_enter_of_settleOne (hhistory : ∀ w, w.isHistory → P w)
    (hsettle : ∀ e, ∀ id ∈ x.schedule.planned, Emits P e (x.settleOne opening e id))
    (store : Option Store) : Emits P (x.fresh store) (x.enter opening store) := by
  have hloads := (emits_loadSeeds x opening store).mono hhistory
  have hreused := Exec.emits_foldl (P := P) (f := x.reuseOne)
    (l := x.schedule.planned) (fun e id _ => emits_reuseOne e id)
  have hsettled := Exec.emits_foldl (P := P) (f := x.settleOne opening)
    (l := x.schedule.planned) hsettle
  have hblocked := fun failed => Exec.emits_foldl (P := P)
    (f := x.blockSeedReaderOne failed) (l := x.schedule.planned)
    (fun e id _ => (emits_blockSeedReaderOne failed e id).mono
      fun w h => hhistory w (Write.isHistory_of_isModelRun h))
  exact ((((hloads.trans (emits_sched _ _)).trans (hreused _)).trans (hsettled _)).trans
    (hblocked _ _)).trans (emits_sched _ _)

/-- The writes after the loop, by those of recording one model with the results of the loop. -/
theorem emits_close_of_recordPassed (hhistory : ∀ w, w.isHistory → w.isClosing → P w)
    (hload : ∀ result ∈ seeds, ∀ w, w.isLoadOf result.seed → P w) (e : Exec)
    (hrecord : ∀ e' : Exec, e'.results = e.results → ∀ id ∈ x.schedule.planned,
      Emits P e' (x.recordPassed closing e' id)) : Emits P e (x.close closing e seeds).exec := by
  have htests := (emits_runTests x closing (failedSeedTargets seeds)
    x.testsToRun ⟨e, []⟩).mono fun w h => hhistory w h.1 h.2
  have hresults := (runTests_spec x closing (failedSeedTargets seeds) x.testsToRun ⟨e, []⟩).2.1
  have hpassed := Exec.emits_foldl_of (P := P) (f := x.recordPassed closing)
    (l := x.schedule.planned.insertionSort (· ≤ ·)) (I := fun e' => e'.results = e.results)
    (fun e' id h => (recordPassed_results e' id).trans h)
    (fun e' h id hid => hrecord e' h id ((List.mem_insertionSort _).1 hid))
  have hloaded := Exec.emits_foldl (P := P) (f := x.recordLoaded closing) (l := seeds)
    (fun e result hresult => (emits_recordLoaded e result).mono (hload result hresult))
  have hfinish : ∀ status finishedAt failed,
      P (.finishRun x.runId status finishedAt failed) :=
    fun status finishedAt failed =>
      hhistory (.finishRun x.runId status finishedAt failed) trivial trivial
  exact ((htests.trans (hpassed _ hresults)).trans (hloaded _)).trans
    (Exec.emits_write (hfinish _ _ _) _)

/-- The writes after the loop are of history, about planned models or of loaded seeds. -/
theorem emits_close_of (hhistory : ∀ w, w.isHistory → w.isClosing → P w)
    (habout : ∀ id ∈ x.schedule.planned, ∀ w, w.isAbout id.logicalName → w.isClosing → P w)
    (hload : ∀ result ∈ seeds, ∀ w, w.isLoadOf result.seed → P w) (e : Exec) :
    Emits P e (x.close closing e seeds).exec :=
  emits_close_of_recordPassed hhistory hload e fun e' _ id hid =>
    (emits_recordPassed e' id).mono fun w h => habout id hid w h.1 h.2

variable (x closing) in
theorem emits_close (e : Exec) (seeds : List SeedResult) :
    Emits Write.isClosing e (x.close closing e seeds).exec :=
  emits_close_of (fun _ _ h => h) (fun _ _ _ _ h => h)
    (fun _ _ _ => Write.isClosing_of_isLoadOf) e

end Execution
end PhloTransform.Engine
