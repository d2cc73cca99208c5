import PhloTransform.Engine.DependencySafety
import PhloTransform.Engine.ScheduleIndependence

/-!
# What a passed run has satisfied

The verdict on a run looks for failures only.  When a run was not stopped, every
planned model and seed without a failure anywhere is satisfied.  A test is gated
on the statuses of its targets, and a target that is not planned has none.

Main results:

- Theorem `Prelude.satisfied_of_done`: an ended loop without a failure has
  satisfied every planned model.
- Theorem `Execution.satisfied_of_passed`: a passed run has satisfied every planned
  model and seed.
-/

namespace PhloTransform.Engine

open Core (CompiledTest ModelId Relation)
open Library (DependencyGraph StepSystem)

namespace Prelude

variable {sch : Schedule} {p : Prelude}

/-- A loop that was not stopped has ended every planned model before the sweep. -/
theorem ended_of_done {s : Sched} (hacyclic : sch.graph.Acyclic) (h : Reached sch p s)
    (hdone : s.phase = .done) (hopen : s.stopping = false) :
    ∃ u : Sched, u.status = s.status ∧ u.LoopInv sch ∧ u.Decided sch p ∧
      ∀ id ∈ sch.planned, (u.status id).isTerminal = true := by
  rcases h with ⟨hlive, -, -⟩ | ⟨u, c, hinv, hdec, hdrain, -, rfl⟩
  · exact absurd hdone hlive
  · have hopenu : u.stopping = false := by
      have hflags : (u.sweep sch).stopping = u.stopping := by
        simp [Sched.sweep_eq, Sched.stopping]
      exact hflags.symm.trans hopen
    have hnil := Sched.unfinished_eq_nil hacyclic hinv hopenu hdrain
    refine ⟨u, by simp [Sched.sweep_eq, hnil], hinv, hdec, ?_⟩
    intro id hid
    by_contra hnot
    have hmem : id ∈ u.unfinished sch.planned := List.mem_filter.2 ⟨hid, by simpa using hnot⟩
    simp [hnil] at hmem

/-- An ended loop without a failure has satisfied every planned model, and none
other. -/
theorem satisfied_of_done {s : Sched} (hacyclic : sch.graph.Acyclic) (h : Reached sch p s)
    (hdone : s.phase = .done) (hopen : s.stopping = false)
    (hfailed : ∀ id ∈ sch.planned, s.status id ≠ .failed)
    (hseeds : ∀ id ∈ sch.planned, p.readsFailedSeed id = false) (id : ModelId) :
    (s.status id).isSatisfied = true ↔ id ∈ sch.planned := by
  obtain ⟨u, hstatus, hinv, hdec, hterm⟩ := ended_of_done hacyclic h hdone hopen
  rw [← hstatus] at hfailed ⊢
  constructor
  · intro hsat
    by_contra hnot
    have hpending : u.status id = .pending := by
      by_contra hne
      exact hnot (hinv.consistent.planned_of_ne_pending hne)
    simp [hpending, ExecutionStatus.isSatisfied] at hsat
  · -- a blocked model has a blocked dependency, so there is none
    induction id using (DependencyGraph.wellFounded_of_acyclic hacyclic).induction with
    | _ id ih =>
      intro hid
      cases hst : u.status id with
      | passed | skipped | cached => rfl
      | pending | ready | running =>
        have := hterm id hid
        simp [hst, ExecutionStatus.isTerminal] at this
      | failed => exact absurd hst (hfailed id hid)
      | cancelled => exact absurd hst (hinv.not_cancelled id)
      | blocked =>
        rcases hdec.blocked_reason id hst with hseed | ⟨d, hdep, hd⟩
        · rw [hseeds id hid] at hseed
          cases hseed
        · have hplanned := (Schedule.mem_plannedDependencies.1 hdep).2
          have hsat := ih d (Schedule.edge_iff.2 ⟨hid, hdep⟩) hplanned
          rcases hd with hd | hd <;> simp [hd, ExecutionStatus.isSatisfied] at hsat

end Prelude

namespace Execution

variable [Rfc3339] {x : Execution} {opening : Opening} {closing : Closing}
variable {store : Option Store} {events : List Event} {r : RunResult}
variable {planned : PlannedSeed}

omit [Rfc3339] in
theorem schedule_acyclic (h : x.compilation.isOk = true) : x.schedule.graph.Acyclic := by
  intro id hcycle
  refine Core.Compilation.graph_acyclic h id
    (Relation.TransGen.mono (fun a b hedge => ?_) id id hcycle)
  obtain ⟨ha, hb⟩ := Schedule.edge_iff.1 hedge
  obtain ⟨hdep, hplanned⟩ := Schedule.mem_plannedDependencies.1 hb
  have hnode : ∀ id ∈ x.schedule.planned, id ∈ x.compilation.graph.nodes := by
    intro id hid
    obtain ⟨model, -, hmodel, -⟩ := exists_compiled hid
    exact List.mem_map.2 ⟨model, Core.Compilation.mem_of_model hmodel,
      Core.Compilation.id_of_model hmodel⟩
  exact ⟨hnode a ha, hnode b hplanned, hdep⟩

/-- The run was neither cancelled nor failed fast, before or after its loop. -/
structure RanThrough (closing : Closing) (r : RunResult) : Prop where
  open_loop : r.exec.sched.stopping = false
  not_requested : r.exec.sched.cancelRequested = false
  tests : ∀ test, closing.cancelRequested test = false

/-- What a passed run found nowhere. -/
structure Unfailed (x : Execution) (r : RunResult) : Prop where
  models : ∀ id ∈ x.schedule.planned, r.exec.sched.status id ≠ .failed
  seeds : ∀ result ∈ r.seeds, result.status ≠ .failed
  tests : ∀ result ∈ r.tests, result.status ≠ .failed

theorem unfailed_of_passed (hrun : x.execute opening closing store events = some r)
    (hpassed : r.status = .passed) : x.Unfailed r := by
  obtain ⟨e, hloop, hdone, rfl⟩ := execute_eq_some.1 hrun
  obtain ⟨hsched, -, hseeds, htests, hstatus⟩ := close_spec x closing e
    (x.loadSeeds opening store).results
  rw [hpassed] at hstatus
  have hnone : ExecutionStatus.failed ∉ x.verdictStatuses e
      (x.loadSeeds opening store).results
      (x.close closing e (x.loadSeeds opening store).results).tests := by
    intro hmem
    rw [runStatus, if_pos hmem] at hstatus
    split at hstatus <;> cases hstatus
  simp only [verdictStatuses, List.mem_append, not_or] at hnone
  obtain ⟨⟨hmodels, htestsNone⟩, hseedsNone⟩ := hnone
  refine ⟨fun id hid hfailed => hmodels ?_, fun result hresult hfailed => hseedsNone ?_,
    fun result hresult hfailed => htestsNone ?_⟩
  · rw [hsched] at hfailed
    refine List.mem_filterMap.2 ⟨id, hid, ?_⟩
    rw [agree_of_run hloop id hid, hfailed]
    rfl
  · exact List.mem_map.2 ⟨result, hseeds ▸ hresult, hfailed⟩
  · exact List.mem_map.2 ⟨result, hresult, hfailed⟩

omit [Rfc3339] in
theorem readsFailedSeed_eq_false {results : List SeedResult}
    (h : ∀ result ∈ results, result.status ≠ .failed) :
    failedSeedTargets results = [] ∧
      ∀ id, x.readsFailedSeed (failedSeedTargets results) id = false := by
  have hnil : failedSeedTargets results = [] := by
    rw [failedSeedTargets, List.map_eq_nil_iff, List.filter_eq_nil_iff]
    exact fun result hresult => by simpa using h result hresult
  exact ⟨hnil, fun id => by simp [hnil, readsFailedSeed, isFailedSeed]⟩

/-- A passed run that was not stopped has satisfied exactly the planned models. -/
theorem satisfied_of_passed (hok : x.compilation.isOk = true)
    (hrun : x.execute opening closing store events = some r)
    (hopen : r.exec.sched.stopping = false) (hpassed : r.status = .passed) (id : ModelId) :
    (r.exec.sched.status id).isSatisfied = true ↔ id ∈ x.schedule.planned := by
  have hunfailed := unfailed_of_passed hrun hpassed
  obtain ⟨e, hloop, hdone, rfl⟩ := execute_eq_some.1 hrun
  obtain ⟨hsched, -, hseeds, -, -⟩ := close_spec x closing e
    (x.loadSeeds opening store).results
  have hmodels := hunfailed.models
  have hloads := hunfailed.seeds
  rw [hseeds] at hloads
  rw [hsched] at hopen hmodels ⊢
  exact Prelude.satisfied_of_done (schedule_acyclic hok) (reached_of_run hloop) hdone hopen
    hmodels (fun id _ => (readsFailedSeed_eq_false hloads).2 id) id

theorem loads_open_of_run {e : Exec} (hrun : x.loop.run (x.enter opening store) events = some e)
    (hopen : e.sched.stopping = false) : (x.loadSeeds opening store).stopped = false := by
  have hsched := run_sched hrun
  rw [sched_enter] at hsched
  have hshut := Prelude.shutdown_of_run (prelude_valid store) hsched
  simp only [Sched.stopping, Bool.or_eq_false_iff] at hopen
  simp only [SeedLoads.stopped, Bool.or_eq_false_iff]
  constructor
  · by_contra hflag
    have := hshut.cancelled (by simpa [prelude] using hflag)
    simp [this] at hopen
  · by_contra hflag
    have := hshut.failFast (by simpa [prelude] using hflag)
    simp [this] at hopen

omit [Rfc3339] in
theorem isSatisfied_seedOutcome {seed : Core.CompiledSeed}
    (h : (x.seedOutcome opening planned seed).status ≠ .failed) :
    (x.seedOutcome opening planned seed).status.isSatisfied = true := by
  unfold seedOutcome at h ⊢
  split_ifs at h ⊢ <;> first | rfl | exact absurd rfl h

/-- A passed run that was not stopped has satisfied every planned seed. -/
theorem seed_satisfied_of_passed {p : Planning} {exist : Relation → Bool}
    (hfollows : x.Follows p exist) (hrun : x.execute opening closing store events = some r)
    (hopen : r.exec.sched.stopping = false) (hpassed : r.status = .passed)
    (hplanned : planned ∈ x.plan.seeds) :
    ∃ result ∈ r.seeds, result.seed = planned.name ∧ result.status.isSatisfied = true := by
  have hloads := (unfailed_of_passed hrun hpassed).seeds
  obtain ⟨e, hloop, -, rfl⟩ := execute_eq_some.1 hrun
  obtain ⟨hsched, -, hseeds, -, -⟩ := close_spec x closing e
    (x.loadSeeds opening store).results
  rw [hsched] at hopen
  rw [hseeds] at hloads ⊢
  obtain ⟨seed, hseed⟩ := Option.isSome_iff_exists.1 (hfollows.seedsCompiled planned hplanned)
  have hmem := (hfollows.mem_loadSeeds_results (loads_open_of_run hloop hopen)).2
    ⟨planned, hplanned, seed, hseed, rfl⟩
  exact ⟨_, hmem, seedOutcome_seed opening planned seed,
    isSatisfied_seedOutcome (hloads _ hmem)⟩

/-- The test has its data: nothing stopped it and its verdict is the query's. -/
theorem test_passed_iff (hok : x.compilation.isOk = true)
    (hrun : x.execute opening closing store events = some r)
    (hthrough : RanThrough closing r) (hpassed : r.status = .passed) {e : Exec}
    (hsched : e.sched = r.exec.sched) {test : CompiledTest}
    (hunfailed : (x.testResult closing e (failedSeedTargets r.seeds) test).status ≠ .failed) :
    (x.testResult closing e (failedSeedTargets r.seeds) test).status = .passed ↔
      ∀ target ∈ test.targets, target ∈ x.schedule.planned := by
  have hnone := (readsFailedSeed_eq_false (x := x) (unfailed_of_passed hrun hpassed).seeds).1
  have hstopping := hthrough.open_loop
  simp only [Sched.stopping, Bool.or_eq_false_iff] at hstopping
  have hgate : (e.sched.cancelled || e.sched.failFast || e.sched.cancelRequested ||
      closing.cancelRequested test.id) = false := by
    simp [hsched, hstopping.1, hstopping.2, hthrough.not_requested, hthrough.tests]
  have hsources : test.sources.any (x.isFailedSeed []) = false := by
    simp [isFailedSeed]
  have htargets : (test.targets.any fun target => !(e.sched.status target).isSatisfied) =
      false ↔ ∀ target ∈ test.targets, target ∈ x.schedule.planned := by
    simp only [List.any_eq_false, Bool.not_eq_true', Bool.not_eq_false, hsched]
    exact forall₂_congr fun target _ =>
      satisfied_of_passed hok hrun hthrough.open_loop hpassed target
  unfold testResult at hunfailed ⊢
  simp only [hgate, hnone, hsources, Bool.or_false, Bool.false_eq_true, if_false]
    at hunfailed ⊢
  rw [← htargets]
  cases hready : test.targets.any fun target => !(e.sched.status target).isSatisfied with
  | true => simp
  | false =>
    simp only [hready, Bool.false_eq_true, if_false] at hunfailed ⊢
    split at hunfailed
    · simp
    · exact absurd rfl hunfailed
    · exact absurd rfl hunfailed

/-- Every planned model, seed and test is satisfied. -/
structure Fulfilled (x : Execution) (r : RunResult) : Prop where
  models : ∀ id ∈ x.schedule.planned, ∃ result, r.exec.results id = some result ∧
    result.status.isSatisfied = true
  seeds : ∀ planned ∈ x.plan.seeds, ∃ result ∈ r.seeds,
    result.seed = planned.name ∧ result.status.isSatisfied = true
  tests : r.tests.map (fun result => (result.test, result.status)) =
    x.testsToRun.map fun test => (test.id, .passed)

/-- A passed run that was not stopped has satisfied everything exactly when all
targets of the tests it ran are planned, that is, none of them is ephemeral. -/
theorem fulfilled_iff {p : Planning} {exist : Relation → Bool} (hfollows : x.Follows p exist)
    (hrun : x.execute opening closing store events = some r)
    (hthrough : RanThrough closing r) (hpassed : r.status = .passed) :
    x.Fulfilled r ↔
      ∀ test ∈ x.testsToRun, ∀ target ∈ test.targets, target ∈ x.schedule.planned := by
  have hok : x.compilation.isOk = true := hfollows.compilation ▸ hfollows.ok
  have hmodels : ∀ id ∈ x.schedule.planned, ∃ result, r.exec.results id = some result ∧
      result.status.isSatisfied = true := by
    intro id hid
    have hsat := (satisfied_of_passed hok hrun hthrough.open_loop hpassed id).2 hid
    have hresult := result_of_execute hrun hid
      (ExecutionStatus.isTerminal_of_isSatisfied hsat)
    obtain ⟨result, hresult, hstatus⟩ := Option.map_eq_some_iff.1 hresult
    exact ⟨result, hresult, hstatus ▸ hsat⟩
  have hseeds : ∀ planned ∈ x.plan.seeds, ∃ result ∈ r.seeds,
      result.seed = planned.name ∧ result.status.isSatisfied = true := fun planned hplanned =>
    seed_satisfied_of_passed hfollows hrun hthrough.open_loop hpassed hplanned
  have htests : r.tests.map (fun result => (result.test, result.status)) =
      x.testsToRun.map (fun test => (test.id, .passed)) ↔
        ∀ test ∈ x.testsToRun, ∀ target ∈ test.targets, target ∈ x.schedule.planned := by
    have hunfailed := (unfailed_of_passed hrun hpassed).tests
    obtain ⟨e, hloop, -, hr⟩ := execute_eq_some.1 hrun
    obtain ⟨hsched, -, hloads, hresults, -⟩ := close_spec x closing e
      (x.loadSeeds opening store).results
    rw [← hr] at hsched hloads hresults
    rw [← hloads] at hresults
    rw [hresults] at hunfailed ⊢
    rw [List.map_map, List.map_inj_left]
    refine forall₂_congr fun test htest => ?_
    have hid : (x.testResult closing e (failedSeedTargets r.seeds) test).test = test.id := by
      unfold testResult
      split_ifs
      · rfl
      · rfl
      · split <;> rfl
    rw [← test_passed_iff hok hrun hthrough hpassed hsched.symm
      (hunfailed _ (List.mem_map_of_mem htest))]
    simp [hid]
  exact ⟨fun h => htests.1 h.tests, fun h => ⟨hmodels, hseeds, htests.2 h⟩⟩

end Execution

/-! ## Small runs -/

namespace Sample

def stageTest : CompiledTest where
  id := "stage_not_null"
  targets := [Core.Sample.stageModel.id]
  sources := []

def testedRead : Core.Compilation :=
  { shownRead with tests := [stageTest] }

def buildTested : Execution :=
  { buildShown with
    compilation := testedRead
    plan := { buildShown.plan with tests := (planning testedRead [reportId]).plannedTests }
    compiled := buildShown.compiled }

def bothPass : List Execution.Event :=
  [.tick "", .tick "", .tick "",
    .passed Core.Sample.rawModel.id ⟨"", "", "", none, none, ""⟩,
    .tick "", .tick "", .tick "", .passed reportId ⟨"", "", "", none, none, ""⟩, .tick "",
    .tick ""]

end Sample

namespace Execution

theorem buildTested_follows :
    @Follows januaryClock Sample.buildTested
      (Sample.planning Sample.testedRead [Sample.reportId]) (fun _ => true) :=
  letI := januaryClock
  ⟨rfl, rfl, rfl, rfl, by decide +kernel, by decide +kernel, fun _ => "", fun _ => false,
    by decide +kernel⟩

/-- Everything passes, and the planned test of the ephemeral model is blocked. -/
theorem stageTest_blocked :
    (Sample.planning Sample.testedRead [Sample.reportId]).plannedTests.map PlannedTest.id =
        ["stage_not_null"] ∧
      @Follows januaryClock Sample.buildTested
        (Sample.planning Sample.testedRead [Sample.reportId]) (fun _ => true) ∧
      (@execute Sample.buildTested januaryClock Sample.opening Sample.closing
        (some Store.empty) Sample.bothPass).map (fun r =>
          (r.status, r.exec.sched.stopping, r.tests.map TestResult.status)) =
        some (.passed, false, [.blocked]) :=
  ⟨by decide +kernel, buildTested_follows, by decide +kernel⟩

/-- Without the test the same run satisfies everything. -/
theorem fulfilled_bothPass :
    ∃ r, @execute Sample.buildShown januaryClock Sample.opening Sample.closing
        (some Store.empty) Sample.bothPass = some r ∧ Sample.buildShown.Fulfilled r := by
  have hrun : (@execute Sample.buildShown januaryClock Sample.opening Sample.closing
      (some Store.empty) Sample.bothPass).map (fun r =>
        (r.status, r.exec.sched.stopping, r.exec.sched.cancelRequested)) =
      some (.passed, false, false) := by
    decide +kernel
  obtain ⟨r, hr, hfields⟩ := Option.map_eq_some_iff.1 hrun
  simp only [Prod.mk.injEq] at hfields
  obtain ⟨hpassed, hopen, hrequested⟩ := hfields
  refine ⟨r, hr, (@fulfilled_iff januaryClock Sample.buildShown Sample.opening
    Sample.closing (some Store.empty) Sample.bothPass r _ _ buildShown_follows hr
    ⟨hopen, hrequested, fun _ => rfl⟩ hpassed).2 ?_⟩
  decide +kernel

end Execution
end PhloTransform.Engine
