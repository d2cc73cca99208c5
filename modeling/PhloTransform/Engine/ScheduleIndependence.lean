import PhloTransform.Engine.Confluence
import PhloTransform.Engine.ExecutionRun

/-!
# Schedule independence of a run

With neither cancellation nor fail-fast, and with one outcome fixed for the
build of each model, neither the concurrency limit nor the order in which tasks
complete shows in the outcome of a run.

Main results:

- Theorem `Execution.final_of_execute`: what an undisturbed run has made of each
  planned model.
- Theorem `Execution.verdict_unique`: statuses, tests and verdict agree.
-/

namespace PhloTransform.Engine

open Core (CompiledTest ModelId)
open Library (StepSystem)

namespace Execution

/-- The same call under another concurrency limit. -/
def withConcurrency (x : Execution) (concurrency : Nat) : Execution :=
  { x with options := { x.options with concurrency := concurrency } }

/-- Nobody stops the run: no fail-fast, and no cancellation before or after the
loop. -/
structure Undisturbed (x : Execution) (opening : Opening) (closing : Closing) : Prop where
  failFast : x.options.failFast = false
  seeds : ∀ name, (opening.seeds name).cancelRequested = false
  tests : ∀ test, closing.cancelRequested test = false

/-- The event requests no cancellation, and a build that ends has the outcome
fixed for its model. -/
def Event.Follows (outcome : ModelId → Bool) : Event → Prop
  | tick _ | attemptFailed _ _ _ _ => True
  | requestCancel | noticeCancel | abort _ => False
  | passed id _ => outcome id = true
  | failed id _ _ _ => outcome id = false

/-- The event as an undisturbed loop sees it. -/
def Event.quiet : Event → Option (Option ModelId)
  | tick _ => some none
  | passed id _ | failed id _ _ _ => some (some id)
  | attemptFailed _ _ _ _ | requestCancel | noticeCancel | abort _ => none

variable [Rfc3339] {x : Execution} {opening : Opening} {closing : Closing}
variable {outcome : ModelId → Bool} {store : Option Store}

/-! ## Undisturbed runs of the loop -/

section

omit [Rfc3339]

theorem Event.sched_of_follows {event : Event} (h : event.Follows outcome) :
    event.sched = event.quiet.map (quietEvent outcome) := by
  cases event with
  | requestCancel | noticeCancel | abort id => exact h.elim
  | tick now | attemptFailed id startedAt failure => rfl
  | passed id completion =>
    have h : outcome id = true := h
    simp [Event.sched, Event.quiet, quietEvent, h]
  | failed id startedAt finishedAt failure =>
    have h : outcome id = false := h
    simp [Event.sched, Event.quiet, quietEvent, h]

theorem filterMap_sched_of_follows {events : List Event}
    (h : ∀ event ∈ events, event.Follows outcome) :
    events.filterMap Event.sched = (events.filterMap Event.quiet).map (quietEvent outcome) := by
  rw [List.map_filterMap]
  exact List.filterMap_congr fun event hevent => Event.sched_of_follows (h event hevent)

theorem run_quietLoop {sch : Schedule} {concurrency : Nat} (s : Sched)
    (events : List (Option ModelId)) :
    (loopSystem sch ⟨concurrency, false⟩).run s (events.map (quietEvent outcome)) =
      (quietLoop sch concurrency outcome).run s events := by
  induction events generalizing s with
  | nil => rfl
  | cons event events ih =>
    simp only [List.map_cons, StepSystem.run, ih]
    rfl

end

variable (store) in
theorem loadSeeds_undisturbed (h : x.Undisturbed opening closing) :
    (x.loadSeeds opening store).cancelled = false ∧
      (x.loadSeeds opening store).failFast = false := by
  have hseed : ∀ (s : SeedLoads) (planned : PlannedSeed),
      s.cancelled = false ∧ s.failFast = false →
      (x.loadSeed opening s planned).cancelled = false ∧
        (x.loadSeed opening s planned).failFast = false := by
    intro s planned hs
    unfold loadSeed
    split
    · exact hs
    · simp only [hs.1, hs.2, Bool.or_self, Bool.false_eq_true, if_false]
      split
      · split
        · split
          · exact ⟨rfl, rfl⟩
          · exact hs
        · exact hs
      · exact ⟨h.seeds _, by simp [h.failFast]⟩
  have hfold : ∀ (seeds : List PlannedSeed) (s : SeedLoads),
      s.cancelled = false ∧ s.failFast = false →
      (seeds.foldl (x.loadSeed opening) s).cancelled = false ∧
        (seeds.foldl (x.loadSeed opening) s).failFast = false := by
    intro seeds
    induction seeds with
    | nil => exact fun _ hs => hs
    | cons planned seeds ih => exact fun s hs => ih _ (hseed s planned hs)
  exact hfold _ _ ⟨rfl, rfl⟩

theorem prelude_undisturbed (h : x.Undisturbed opening closing) :
    (x.prelude opening store).Undisturbed := by
  obtain ⟨hcancelled, hfailFast⟩ := loadSeeds_undisturbed store h
  exact ⟨hcancelled, hcancelled, hfailFast⟩

/-- An undisturbed run projects to a run of the undisturbed scheduling loop. -/
theorem quietRun_of_run (h : x.Undisturbed opening closing) {events : List Event}
    (hevents : ∀ event ∈ events, event.Follows outcome) {e : Exec}
    (hrun : x.loop.run (x.enter opening store) events = some e) :
    (quietLoop x.schedule x.options.concurrency outcome).run
      ((x.prelude opening store).enter x.schedule) (events.filterMap Event.quiet) =
        some e.sched := by
  have hsched := run_sched hrun
  have hoptions : x.loopOptions = ⟨x.options.concurrency, false⟩ := by
    simp [loopOptions, h.failFast]
  rw [sched_enter, filterMap_sched_of_follows hevents, hoptions, run_quietLoop] at hsched
  exact hsched

/-! ## The outcome of a run -/

/-- What an undisturbed run has made of each planned model. -/
theorem final_of_execute (h : x.Undisturbed opening closing)
    (hacyclic : x.schedule.graph.Acyclic) {events : List Event}
    (hevents : ∀ event ∈ events, event.Follows outcome) {r : RunResult}
    (hrun : x.execute opening closing store events = some r) :
    r.exec.sched.Final x.schedule (x.prelude opening store) outcome := by
  obtain ⟨e, hloop, hdone, rfl⟩ := execute_eq_some.1 hrun
  rw [(close_spec x closing e _).1]
  exact Prelude.final_of_quietRun (prelude_valid store) (prelude_undisturbed h) hacyclic
    (quietRun_of_run h hevents hloop) hdone

/-- Every planned model has one result, with the status the loop gave it. -/
theorem result_of_execute {events : List Event} {r : RunResult}
    (hrun : x.execute opening closing store events = some r) {id : ModelId}
    (hid : id ∈ x.schedule.planned) (hterm : (r.exec.sched.status id).isTerminal = true) :
    (r.exec.results id).map ModelResult.status = some (r.exec.sched.status id) := by
  obtain ⟨e, hloop, -, rfl⟩ := execute_eq_some.1 hrun
  obtain ⟨hsched, hresults, -⟩ := close_spec x closing e
    (x.loadSeeds opening store).results
  rw [hsched] at hterm ⊢
  rw [hresults, agree_of_run hloop id hid, if_pos hterm]

/-- Statuses, tests and verdict of two undisturbed runs agree. -/
theorem verdict_unique {n n' : Nat} {e e' : Exec} {seeds : List SeedResult}
    (hsched : ∀ id, e.sched.status id = e'.sched.status id)
    (hflags : e.sched.cancelled = e'.sched.cancelled ∧
      e.sched.failFast = e'.sched.failFast ∧
      e.sched.cancelRequested = e'.sched.cancelRequested)
    (hresults : ∀ id ∈ x.schedule.planned,
      (e.results id).map ModelResult.status = (e'.results id).map ModelResult.status) :
    ((x.withConcurrency n).close closing e seeds).tests =
        ((x.withConcurrency n').close closing e' seeds).tests ∧
      ((x.withConcurrency n).close closing e seeds).status =
        ((x.withConcurrency n').close closing e' seeds).status := by
  obtain ⟨-, -, -, htests, hstatus⟩ := close_spec (x.withConcurrency n)
    closing e seeds
  obtain ⟨-, -, -, htests', hstatus'⟩ := close_spec (x.withConcurrency n')
    closing e' seeds
  have hjudge : (x.withConcurrency n).testResult closing e (failedSeedTargets seeds) =
      (x.withConcurrency n').testResult closing e' (failedSeedTargets seeds) := by
    funext test
    simp only [testResult, hsched, hflags.1, hflags.2.1, hflags.2.2]
    rfl
  have htests_eq : ((x.withConcurrency n).close closing e seeds).tests =
      ((x.withConcurrency n').close closing e' seeds).tests := by
    rw [htests, htests', hjudge]
    rfl
  refine ⟨htests_eq, ?_⟩
  have hstatuses : (x.withConcurrency n).resultStatuses e =
      (x.withConcurrency n').resultStatuses e' :=
    List.filterMap_congr hresults
  have hverdict : ∀ tests, (x.withConcurrency n).verdictStatuses e seeds tests =
      (x.withConcurrency n').verdictStatuses e' seeds tests := fun tests => by
    rw [verdictStatuses, verdictStatuses, hstatuses]
  rw [hstatus, hstatus', htests_eq, runStatus, runStatus, hverdict, hflags.1]

/-- How a model is carried over without being built, if it is. -/
def carried (x : Execution) (opening : Opening) (id : ModelId) : Option ExecutionStatus :=
  (x.reused id).or (x.settled opening id)

/-- What the end of a run says about one planned model. -/
structure Concluded (x : Execution) (opening : Opening) (store : Option Store)
    (outcome : ModelId → Bool) (r : RunResult) (id : ModelId) : Prop where
  terminal : (r.exec.sched.status id).isTerminal = true
  result : (r.exec.results id).map ModelResult.status = some (r.exec.sched.status id)
  reported : ∀ status, (id, status) ∈ r.exec.sched.finished →
    status = r.exec.sched.status id
  carried : ∀ status, x.carried opening id = some status →
    r.exec.sched.status id = status ∧ (status = .skipped ∨ status = .cached)
  blocked : x.carried opening id = none → (r.exec.sched.status id = .blocked ↔
    (x.prelude opening store).SeedBlocked x.schedule id ∨
      ∃ root, (r.exec.sched.status root = .failed ∨
          (x.prelude opening store).SeedBlocked x.schedule root) ∧
        Relation.TransGen ((x.prelude opening store).Feeds x.schedule) root id)
  executed : x.carried opening id = none → r.exec.sched.status id ≠ .blocked →
    r.exec.sched.status id = if outcome id then .passed else .failed

theorem concluded_of_execute (h : x.Undisturbed opening closing)
    (hacyclic : x.schedule.graph.Acyclic) {events : List Event}
    (hevents : ∀ event ∈ events, event.Follows outcome) {r : RunResult}
    (hrun : x.execute opening closing store events = some r) {id : ModelId}
    (hid : id ∈ x.schedule.planned) : x.Concluded opening store outcome r id := by
  have hfinal := final_of_execute h hacyclic hevents hrun
  have hvalid : (x.prelude opening store).Valid := prelude_valid store
  have hterm := hfinal.terminal id hid
  refine ⟨hterm, result_of_execute hrun hid hterm, ?_, ?_, ?_, ?_⟩
  · exact fun status hmem => (hfinal.result_status id status hmem).symm
  · exact fun status hcarried =>
      ⟨hfinal.carried id hid status hcarried, hvalid.outcome id status hcarried⟩
  · exact fun _ => hfinal.blocked_iff hvalid hacyclic hid
  · intro hnone hnot
    exact (hfinal.cases hid hnone).resolve_left hnot

theorem exists_step_of_undisturbed (h : x.Undisturbed opening closing)
    (hacyclic : x.schedule.graph.Acyclic) {events : List Event}
    (hevents : ∀ event ∈ events, event.Follows outcome) {e : Exec}
    (hrun : x.loop.run (x.enter opening store) events = some e)
    (hlive : e.sched.phase ≠ .done) :
    ∃ event e', event.Follows outcome ∧ event.quiet ≠ none ∧ x.step e event = some e' := by
  have hvalid : (x.prelude opening store).Valid := prelude_valid store
  obtain ⟨quiet, sched, hstep⟩ := Prelude.exists_step_of_quietRun hvalid
    (prelude_undisturbed h) hacyclic (quietRun_of_run h hevents hrun) hlive
  have hstep : e.sched.step x.schedule x.loopOptions (quietEvent outcome quiet) =
      some sched := by
    simpa [quietLoop, loopOptions, h.failFast] using hstep
  cases quiet with
  | none =>
    rw [quietEvent] at hstep
    exact ⟨.tick "", x.effects e sched (.tick ""), trivial, by simp [Event.quiet],
      by simp [step, Event.sched, hstep]⟩
  | some id =>
    cases hout : outcome id with
    | true =>
      rw [quietEvent, hout] at hstep
      let event := Event.passed id ⟨"", "", "", none, none, ""⟩
      exact ⟨event, x.effects e sched event, hout, by simp [event, Event.quiet],
        by simp [event, step, Event.sched, hstep]⟩
    | false =>
      rw [quietEvent, hout] at hstep
      let event := Event.failed id "" "" .sql
      exact ⟨event, x.effects e sched event, hout, by simp [event, Event.quiet],
        by simp [event, step, Event.sched, hstep]⟩

/-- What the concurrency limit and the order of completions cannot change. -/
structure ScheduleIndependent (x : Execution) (opening : Opening) (closing : Closing)
    (store : Option Store) (outcome : ModelId → Bool) : Prop where
  bounded : ∀ n events e, (∀ event ∈ events, event.Follows outcome) →
    (x.withConcurrency n).loop.run ((x.withConcurrency n).enter opening store) events =
      some e →
    (events.filterMap Event.quiet).length ≤
      Sched.work x.schedule ((x.prelude opening store).enter x.schedule)
  goes_on : ∀ n events e, (∀ event ∈ events, event.Follows outcome) →
    (x.withConcurrency n).loop.run ((x.withConcurrency n).enter opening store) events =
      some e →
    e.sched.phase ≠ .done → ∃ event e', event.Follows outcome ∧ event.quiet ≠ none ∧
      (x.withConcurrency n).step e event = some e'
  /-- No task is left, and every planned model finished exactly once. -/
  concludes : ∀ n events r, (∀ event ∈ events, event.Follows outcome) →
    (x.withConcurrency n).execute opening closing store events = some r →
    r.exec.sched.inflight = [] ∧
      (r.exec.sched.finished.map Prod.fst).Perm x.schedule.planned ∧
      ∀ id ∈ x.schedule.planned, x.Concluded opening store outcome r id
  /-- Two runs agree on every planned model and on the verdict. -/
  agree : ∀ n n' events events' r r', (∀ event ∈ events, event.Follows outcome) →
    (∀ event ∈ events', event.Follows outcome) →
    (x.withConcurrency n).execute opening closing store events = some r →
    (x.withConcurrency n').execute opening closing store events' = some r' →
    (∀ id ∈ x.schedule.planned, r.exec.sched.status id = r'.exec.sched.status id) ∧
      r.status = r'.status

/-- Undisturbed runs end, conclude every planned model, and end alike whatever
the concurrency limit and the order of completions. -/
theorem undisturbed_run_outcome (x : Execution) (opening : Opening) (closing : Closing)
    (store : Option Store) (outcome : ModelId → Bool)
    (h : x.Undisturbed opening closing) (hacyclic : x.schedule.graph.Acyclic) :
    x.ScheduleIndependent opening closing store outcome := by
  have hany : ∀ n, (x.withConcurrency n).Undisturbed opening closing := fun n =>
    ⟨h.failFast, h.seeds, h.tests⟩
  refine ⟨?_, ?_, ?_, ?_⟩
  · intro n events e hevents hrun
    exact Prelude.length_le_of_quietRun (prelude_valid store) (prelude_undisturbed (hany n))
      hacyclic (quietRun_of_run (hany n) hevents hrun)
  · intro n events e hevents hrun hlive
    exact exists_step_of_undisturbed (hany n) hacyclic hevents hrun hlive
  · intro n events r hevents hrun
    have hfinal := final_of_execute (hany n) hacyclic hevents hrun
    refine ⟨hfinal.inflight_nil, hfinal.one_result, fun id hid => ?_⟩
    obtain ⟨hterm, hresult, hreported, hcarried, hblocked, hexecuted⟩ :=
      concluded_of_execute (hany n) hacyclic hevents hrun hid
    exact ⟨hterm, hresult, hreported, hcarried, hblocked, hexecuted⟩
  · intro n n' events events' r r' hevents hevents' hrun hrun'
    have hfinal := final_of_execute (hany n) hacyclic hevents hrun
    have hfinal' := final_of_execute (hany n') hacyclic hevents' hrun'
    have hstatus : ∀ id, r.exec.sched.status id = r'.exec.sched.status id :=
      hfinal.status_unique hfinal' hacyclic
    refine ⟨fun id _ => hstatus id, ?_⟩
    have hresults : ∀ id ∈ x.schedule.planned,
        (r.exec.results id).map ModelResult.status =
          (r'.exec.results id).map ModelResult.status := by
      intro id hid
      rw [result_of_execute hrun hid (hfinal.terminal id hid),
        result_of_execute hrun' hid (hfinal'.terminal id hid), hstatus]
    obtain ⟨e, -, -, rfl⟩ := execute_eq_some.1 hrun
    obtain ⟨e', -, -, rfl⟩ := execute_eq_some.1 hrun'
    obtain ⟨hsched, hkept, -⟩ := close_spec (x.withConcurrency n) closing e
      ((x.withConcurrency n).loadSeeds opening store).results
    obtain ⟨hsched', hkept', -⟩ := close_spec (x.withConcurrency n')
      closing e' ((x.withConcurrency n').loadSeeds opening store).results
    rw [hsched] at hfinal
    rw [hsched'] at hfinal'
    refine (verdict_unique (fun id => ?_) ⟨?_, ?_, ?_⟩ fun id hid => ?_).2
    · simpa only [hsched, hsched'] using hstatus id
    · rw [hfinal.cancelled, hfinal'.cancelled]
    · rw [hfinal.failFast, hfinal'.failFast]
    · rw [hfinal.cancelRequested, hfinal'.cancelRequested]
    · simpa only [hkept, hkept'] using hresults id hid

end Execution

/-! ## Two models in a chain -/

namespace Sample

def buildChain : Execution :=
  execution Core.Sample.chain
    [row Core.Sample.rawModel .build, row Core.Sample.martModel .build] [] false
    (by decide) (by decide)

theorem buildChain_acyclic : buildChain.schedule.graph.Acyclic := by
  have hrank : ∀ a ∈ buildChain.schedule.planned, ∀ b ∈ buildChain.schedule.planned,
      b ∈ buildChain.schedule.plannedDependencies a →
      (if b = Core.Sample.martModel.id then 1 else 0) <
        if a = Core.Sample.martModel.id then 1 else 0 := by
    decide +kernel
  exact Library.DependencyGraph.acyclic_of_rank _
    fun a b ⟨ha, hb, hedge⟩ => hrank a ha b hb hedge

def rawFails (id : ModelId) : Bool :=
  decide (id ≠ Core.Sample.rawModel.id)

end Sample

/-- The chain's runs are schedule independent; the first model's failure blocks
the second. -/
theorem Execution.undisturbed_run_outcome_buildChain :
    @ScheduleIndependent januaryClock Sample.buildChain Sample.opening Sample.closing
        (some Store.empty) Sample.rawFails ∧
      (@execute Sample.buildChain januaryClock Sample.opening Sample.closing
          (some Store.empty)
          [.tick "", .tick "", .tick "", .failed Core.Sample.rawModel.id "" "" .sql,
            .tick "", .tick ""]).map
        (fun r => (r.status, r.exec.sched.status Core.Sample.martModel.id)) =
        some (.failed, .blocked) := by
  refine ⟨@undisturbed_run_outcome januaryClock Sample.buildChain Sample.opening
    Sample.closing (some Store.empty) Sample.rawFails ⟨rfl, fun _ => rfl, fun _ => rfl⟩
    Sample.buildChain_acyclic, ?_⟩
  decide +kernel

end PhloTransform.Engine
