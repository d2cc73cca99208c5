import PhloTransform.Engine.Confluence
import PhloTransform.Engine.SeedLoads

/-!
# Dependency safety of the scheduling loop

A model reads what its compiled SQL names, and the SQL of ephemeral models is
inlined, so it also reads what they read.  The loop counts direct planned
dependencies only.  Where every read through ephemeral models is also reached
through direct dependencies, a model is started only once everything it reads
is available.

Main results:

- Theorem `Execution.satisfied_of_above`: what a started model reaches through
  direct dependencies is available.
- Theorem `Execution.reads_satisfied_of_covered`: what the started models of a
  run read.
-/

namespace PhloTransform

namespace Core.Compilation

/-- The compiled SQL of a model reads another model: directly, or inlined with an
ephemeral dependency. -/
inductive Reads (compilation : Compilation) : ModelId → ModelId → Prop
  | direct {id dependency : ModelId} :
      dependency ∈ compilation.modelDependencies id → Reads compilation id dependency
  | inlined {id inner dependency : ModelId} :
      inner ∈ compilation.modelDependencies id → compilation.isEphemeral inner = true →
      Reads compilation inner dependency → Reads compilation id dependency

/-- The compiled SQL of a model reads a source: directly, or inlined with an
ephemeral dependency. -/
inductive ReadsSource (compilation : Compilation) : ModelId → SourceId → Prop
  | direct {id : ModelId} {source : SourceId} :
      source ∈ compilation.sourceDependencies id → ReadsSource compilation id source
  | inlined {id inner : ModelId} {source : SourceId} :
      inner ∈ compilation.modelDependencies id → compilation.isEphemeral inner = true →
      ReadsSource compilation inner source → ReadsSource compilation id source

theorem reads_iff {compilation : Compilation} {id dependency : ModelId} :
    compilation.Reads id dependency ↔ dependency ∈ compilation.modelDependencies id ∨
      ∃ inner ∈ compilation.modelDependencies id, compilation.isEphemeral inner = true ∧
        compilation.Reads inner dependency := by
  constructor
  · rintro (hdirect | ⟨hinner, hephemeral, hreads⟩)
    · exact Or.inl hdirect
    · exact Or.inr ⟨_, hinner, hephemeral, hreads⟩
  · rintro (hdirect | ⟨inner, hinner, hephemeral, hreads⟩)
    · exact .direct hdirect
    · exact .inlined hinner hephemeral hreads

end Core.Compilation

namespace Engine

open Core (Compilation ModelId SourceId relationForSource)
open Library (StepSystem)

namespace Execution

variable [Rfc3339] (x : Execution) (opening : Opening) (store : Option Store)

/-! ## Reads and starts -/

/-- The compiled SQL of a model reads a planned seed. -/
def ReadsSeed (id : ModelId) (planned : PlannedSeed) : Prop :=
  ∃ source, x.compilation.ReadsSource id source ∧
    (relationForSource source x.compilation.defaults.catalog x.defaultSchema).display =
      planned.target

/-- The next event starts the build of a model. -/
def Starts (e : Exec) (id : ModelId) : Prop :=
  e.sched.phase = .fill ∧ e.sched.dispatched x.loopOptions = some id

/-- Everything planned that a model reads is available. -/
structure ReadsSatisfied (seeds : List SeedResult) (e : Exec) (id : ModelId) : Prop where
  models : ∀ dependency ∈ x.schedule.planned, x.compilation.Reads id dependency →
    (e.sched.status dependency).isSatisfied = true
  seeds : ∀ planned ∈ x.plan.seeds, x.ReadsSeed id planned →
    (∃ result ∈ seeds, result.seed = planned.name) ∧
      ∀ result ∈ seeds, result.seed = planned.name → result.status.isSatisfied = true

/-- `above` is reached from `id` through direct planned dependencies of models
that are not carried over. -/
def Above (above id : ModelId) : Prop :=
  Relation.TransGen ((x.prelude opening store).Feeds x.schedule) above id

/-- Every planned read of a model to be built shows in direct dependencies: a
model read through ephemeral ones is carried over or above it, and a failed seed
is read directly by the model or by one above it. -/
structure ReadsCovered : Prop where
  models : ∀ id ∈ x.schedule.planned, (x.prelude opening store).outcome id = none →
    ∀ dependency ∈ x.schedule.planned, x.compilation.Reads id dependency →
      (x.prelude opening store).outcome dependency ≠ none ∨
        x.Above opening store dependency id
  seeds : ∀ id ∈ x.schedule.planned, (x.prelude opening store).outcome id = none →
    ∀ source, x.compilation.ReadsSource id source →
      x.isFailedSeed (failedSeedTargets (x.loadSeeds opening store).results) source = true →
      ∃ reader, (reader = id ∨ x.Above opening store reader id) ∧
        (x.prelude opening store).SeedBlocked x.schedule reader

end Execution

/-! ## Starting a model -/

namespace Sched

variable {sch : Schedule} {options : LoopOptions} {s : Sched} {p : Prelude}
variable {id : ModelId}
variable {event : SchedEvent}

theorem LoopInv.openDependencies_of_dispatched (h : s.LoopInv sch)
    (hid : s.dispatched options = some id) :
    id ∈ sch.planned ∧ s.status id = .pending ∧ openDependencies sch s id = [] := by
  unfold dispatched at hid
  split at hid
  · next first rest hready =>
      split at hid
      · next hcond =>
          obtain rfl : first = id := Option.some.inj hid
          obtain ⟨hplanned, hzero⟩ := h.ready_zero first (by simp [hready])
          refine ⟨hplanned, hcond.2, List.length_eq_zero_iff.1 ?_⟩
          rw [← h.consistent.remaining_eq first hplanned, hzero]
      · cases hid
  · cases hid

theorem started_of_stepTo {s' : Sched} (hstep : StepTo sch options s event s') :
    s'.started = s.started ∨ s.phase = .fill ∧ event = .tick ∧
      ∃ id, s.dispatched options = some id ∧ s'.started = s.started ++ [id] := by
  rcases tasks_of_stepTo hstep with
    ⟨hsame, -⟩ | ⟨id, rest, hphase, hevent, hready, hpending, hroom, rfl⟩
  · exact Or.inl hsame
  · exact Or.inr ⟨hphase, hevent, id, by simp [dispatched, hready, hpending, hroom], rfl⟩

/-- Filling changes the status of the dispatched model only. -/
theorem tickFill_status_or_dispatched (options : LoopOptions) (s : Sched) (id : ModelId) :
    (s.tickFill options).status id = s.status id ∨
      s.dispatched options = some id ∧ (s.tickFill options).started = s.started ++ [id] := by
  unfold tickFill dispatched
  split
  · next first rest hready =>
      split
      · next hroom =>
          split
          · next hpending =>
              by_cases hne : id = first
              · subst hne
                exact Or.inr ⟨by simp [hroom, hpending], rfl⟩
              · exact Or.inl (by simp [hne])
          · exact Or.inl rfl
      · exact Or.inl rfl
  · split <;> exact Or.inl rfl

/-- A model is under way or executed only after it was dispatched. -/
theorem LoopInv.dispatched_of_executed (h : s.LoopInv sch) {s' : Sched}
    (hstep : StepTo sch options s event s')
    (hid : s'.status id = .running ∨ s'.status id = .passed ∨ s'.status id = .failed) :
    s.status id = .running ∨ s.status id = .passed ∨ s.status id = .failed ∨
      s.dispatched options = some id ∧ s'.started = s.started ++ [id] := by
  have hfailBelow : ∀ {failed}, failed ∈ s.inflight →
      s'.status id = (failBelow sch s failed .failed).status id →
      s.status id = .running ∨ s.status id = .passed ∨ s.status id = .failed := by
    intro failed hfailed hstatus
    rw [hstatus, failBelow_status] at hid
    split at hid
    · simp at hid
    · by_cases hne : id = failed
      · subst hne
        exact Or.inl (h.inflight_running id hfailed)
      · simpa [hne] using hid
  have hold : s.status id = .running ∨ s.status id = .passed ∨ s.status id = .failed →
      s.status id = .running ∨ s.status id = .passed ∨ s.status id = .failed ∨
        s.dispatched options = some id ∧ s'.started = s.started ++ [id] :=
    fun h => h.imp_right (Or.imp_right Or.inl)
  have hsame : s'.status id = s.status id →
      s.status id = .running ∨ s.status id = .passed ∨ s.status id = .failed ∨
        s.dispatched options = some id ∧ s'.started = s.started ++ [id] :=
    fun hst => hold (hst ▸ hid)
  cases hstep with
  | fill hphase =>
    rcases tickFill_status_or_dispatched options s id with hsame' | hdispatched
    · exact hsame hsame'
    · exact Or.inr (Or.inr (Or.inr hdispatched))
  | head hphase => exact hsame (by rw [tickHead_status])
  | sweep hphase hidle =>
    rw [sweep_eq] at hid
    simp only at hid
    split at hid
    · unfold leftoverStatus at hid
      split at hid <;> simp at hid
    · exact hold hid
  | @passMain passed hphase hmem =>
    by_cases hne : id = passed
    · subst hne
      exact Or.inl (h.inflight_running id hmem)
    · exact hsame (by simp [Sched.passMain, hne])
  | failMain hphase hmem => exact hold (hfailBelow hmem (by rw [failMain_status]))
  | @passDrain passed hphase hmem =>
    by_cases hne : id = passed
    · subst hne
      exact Or.inl (h.inflight_running id hmem)
    · exact hsame (by
        simp [Sched.passDrain, h.inflight_running passed hmem, ExecutionStatus.isTerminal,
          hne])
  | @failDrain failed hphase hmem =>
    exact hold (hfailBelow hmem (by
      simp [Sched.failDrain, h.inflight_running failed hmem, ExecutionStatus.isTerminal,
        failBelow, Sched.blockBelow, Sched.finish]))
  | requestCancel | noticeCancel _ _ | abort _ _ _ => exact hsame rfl

theorem Decided.passed_of_satisfied (h : s.Decided sch p) (hsat : (s.status id).isSatisfied = true)
    (hnone : p.outcome id = none) : s.status id = .passed := by
  cases hst : s.status id with
  | passed => rfl
  | skipped => exact absurd hnone (h.not_carried id (Or.inl hst))
  | cached => exact absurd hnone (h.not_carried id (Or.inr hst))
  | pending | ready | running | failed | blocked | cancelled =>
    simp [hst, ExecutionStatus.isSatisfied] at hsat

/-- What a model without open dependencies reaches through direct dependencies is
available. -/
theorem satisfied_of_feeds (hinv : s.LoopInv sch) (hdec : s.Decided sch p) {above : ModelId}
    (hopen : openDependencies sch s id = []) (h : Relation.TransGen (p.Feeds sch) above id) :
    (s.status above).isSatisfied = true := by
  induction h with
  | single hfeeds => exact openDependencies_eq_nil.1 hopen _ hfeeds.2.2
  | @tail between id hchain hfeeds ih =>
    have hnone : p.outcome between = none := by
      cases hchain with
      | single hlast => exact hlast.2.1
      | tail _ hlast => exact hlast.2.1
    have hpassed := hdec.passed_of_satisfied
      (openDependencies_eq_nil.1 hopen _ hfeeds.2.2) hnone
    exact ih (hinv.consistent.executed between (by simp [hpassed]))

end Sched

namespace Execution

variable [Rfc3339] {x : Execution} {opening : Opening} {store : Option Store}
variable {e : Exec} {id : ModelId}

/-- A model joins the started ones exactly when an event starts it. -/
theorem started_of_step {e' : Exec} {event : Event} (hstep : x.step e event = some e') :
    e'.sched.started = e.sched.started ∨
      ∃ id, x.Starts e id ∧ e'.sched.started = e.sched.started ++ [id] := by
  rcases step_cases hstep with ⟨id, startedAt, attemptStartedAt, failure, -, -, rfl⟩ |
    ⟨schedEvent, sched, -, hsched, rfl⟩
  · exact Or.inl (by simp)
  · rw [effects_sched]
    rcases Sched.started_of_stepTo (Sched.stepTo_of_step hsched) with hsame |
      ⟨hphase, -, id, hid, hstarted⟩
    · exact Or.inl hsame
    · exact Or.inr ⟨id, ⟨hphase, hid⟩, hstarted⟩

theorem open_of_starts (hreached : Prelude.Reached x.schedule (x.prelude opening store) e.sched)
    (hshut : (x.prelude opening store).Shutdown e.sched) (hstarts : x.Starts e id) :
    e.sched.LoopInv x.schedule ∧ e.sched.Decided x.schedule (x.prelude opening store) ∧
      (x.loadSeeds opening store).stopped = false ∧
      (x.prelude opening store).outcome id = none := by
  have hvalid : (x.prelude opening store).Valid := prelude_valid store
  rcases hreached with ⟨-, hinv, hdec⟩ | ⟨u, c, -, -, -, -, hswept⟩
  · refine ⟨hinv, hdec, ?_, ?_⟩
    · have hopen := hshut.fill_open hstarts.1
      simp only [Sched.stopping, Bool.or_eq_false_iff] at hopen
      simp only [SeedLoads.stopped, Bool.or_eq_false_iff]
      constructor
      · by_contra hflag
        have := hshut.cancelled (by simpa [prelude] using hflag)
        simp [hopen.1] at this
      · by_contra hflag
        have := hshut.failFast (by simpa [prelude] using hflag)
        simp [hopen.2] at this
    · obtain ⟨hplanned, hpending, -⟩ := hinv.openDependencies_of_dispatched hstarts.2
      by_contra hsome
      obtain ⟨status, hstatus⟩ := Option.ne_none_iff_exists'.1 hsome
      have hst := hdec.carried id hplanned status hstatus
      rcases hvalid.outcome id status hstatus with rfl | rfl <;> simp [hpending] at hst
  · have hphase := hstarts.1
    rw [hswept] at hphase
    simp [Sched.sweep] at hphase

/-- Where direct dependencies cover the reads, a model is started only once
everything planned that it reads is available. -/
theorem readsSatisfied_of_starts {p : Planning} {exist : Core.Relation → Bool}
    (hfollows : x.Follows p exist) (hcovered : x.ReadsCovered opening store)
    (hreached : Prelude.Reached x.schedule (x.prelude opening store) e.sched)
    (hshut : (x.prelude opening store).Shutdown e.sched) (hstarts : x.Starts e id) :
    x.ReadsSatisfied (x.loadSeeds opening store).results e id := by
  have hvalid : (x.prelude opening store).Valid := prelude_valid store
  obtain ⟨hinv, hdec, hloads, hnone⟩ := open_of_starts hreached hshut hstarts
  obtain ⟨hplanned, hpending, hopen⟩ := hinv.openDependencies_of_dispatched hstarts.2
  refine ⟨?_, ?_⟩
  · intro dependency hdependency hreads
    rcases hcovered.models id hplanned hnone dependency hdependency hreads with
      hcarried | habove
    · obtain ⟨status, hstatus⟩ := Option.ne_none_iff_exists'.1 hcarried
      rw [hdec.carried dependency hdependency status hstatus]
      rcases hvalid.outcome dependency status hstatus with rfl | rfl <;> rfl
    · exact Sched.satisfied_of_feeds hinv hdec hopen habove
  · rintro planned hseed ⟨source, hreads, hdisplay⟩
    obtain ⟨seed, -, hname, htarget, -, hcompiled⟩ := hfollows.exists_seed hseed
    refine ⟨⟨x.seedOutcome opening planned seed, (hfollows.mem_loadSeeds_results hloads).2
      ⟨planned, hseed, seed, hcompiled, rfl⟩, seedOutcome_seed _ _ _⟩, ?_⟩
    intro result hresult hresultName
    obtain ⟨planned', hseed', seed', hcompiled', rfl⟩ :=
      (hfollows.mem_loadSeeds_results hloads).1 hresult
    obtain rfl : planned' = planned := List.inj_on_of_nodup_map hfollows.seed_names_nodup
      hseed' hseed (by rw [← hresultName, seedOutcome_seed])
    obtain rfl : seed' = seed := Option.some.inj (hcompiled'.symm.trans hcompiled)
    by_contra hunsat
    -- an unsatisfied load failed, so the read is of a failed seed
    have hfailed : (x.seedOutcome opening planned' seed').status = .failed ∧
        (x.seedOutcome opening planned' seed').target = planned'.target := by
      unfold seedOutcome at hunsat ⊢
      split at hunsat
      · next hbuild =>
          rw [if_pos hbuild]
          simp only at hunsat ⊢
          split at hunsat
          · next hfailed => simp [hfailed, htarget]
          · simp [ExecutionStatus.isSatisfied] at hunsat
      · simp only at hunsat
        split at hunsat <;> simp [ExecutionStatus.isSatisfied] at hunsat
    have hsource : x.isFailedSeed (failedSeedTargets (x.loadSeeds opening store).results)
        source = true := by
      have hmem : planned'.target ∈
          failedSeedTargets (x.loadSeeds opening store).results :=
        List.mem_map.2 ⟨_, List.mem_filter.2 ⟨hresult, by simpa using hfailed.1⟩, hfailed.2⟩
      simpa [isFailedSeed, hdisplay] using hmem
    obtain ⟨reader, hreader, hblocked⟩ := hcovered.seeds id hplanned hnone source hreads hsource
    have hstatus := hdec.seed_blocked reader hblocked.1 hblocked.2.1 hblocked.2.2
    rcases hreader with rfl | habove
    · simp [hpending] at hstatus
    · have := Sched.satisfied_of_feeds hinv hdec hopen habove
      simp [hstatus, ExecutionStatus.isSatisfied] at this

/-! ## Every started model of a run -/

/-- A model reads, directly or through models that are not carried over, a model
that failed or a seed that failed to load. -/
inductive Downstream (x : Execution) (opening : Opening) (store : Option Store) (e : Exec) :
    ModelId → Prop
  | failed {id dependency : ModelId} : dependency ∈ x.schedule.planned →
      x.compilation.Reads id dependency → e.sched.status dependency = .failed →
      Downstream x opening store e id
  | seed {id : ModelId} {planned : PlannedSeed} {result : SeedResult} :
      planned ∈ x.plan.seeds → x.ReadsSeed id planned →
      result ∈ (x.loadSeeds opening store).results → result.seed = planned.name →
      result.status = .failed → Downstream x opening store e id
  | chain {id dependency : ModelId} : dependency ∈ x.schedule.planned →
      x.compilation.Reads id dependency →
      (x.prelude opening store).outcome dependency = none →
      Downstream x opening store e dependency → Downstream x opening store e id

/-- What a run maintains about the models it has started. -/
structure StartedInv (x : Execution) (opening : Opening) (store : Option Store) (e : Exec) :
    Prop where
  reads : ∀ id ∈ e.sched.started,
    x.ReadsSatisfied (x.loadSeeds opening store).results e id
  executed : ∀ id, e.sched.status id = .running ∨ e.sched.status id = .passed ∨
    e.sched.status id = .failed → id ∈ e.sched.started
  carried : ∀ id, e.sched.status id = .skipped ∨ e.sched.status id = .cached →
    (x.prelude opening store).outcome id ≠ none

omit [Rfc3339] in
theorem ReadsSatisfied.of_kept {seeds : List SeedResult} {e' : Exec}
    (h : x.ReadsSatisfied seeds e id)
    (hkept : ∀ j, (e.sched.status j).isTerminal = true → e'.sched.status j = e.sched.status j) :
    x.ReadsSatisfied seeds e' id where
  models := fun dependency hdependency hreads => by
    have hsat := h.models dependency hdependency hreads
    rw [hkept dependency (ExecutionStatus.isTerminal_of_isSatisfied hsat)]
    exact hsat
  seeds := h.seeds

theorem StartedInv.not_downstream (h : x.StartedInv opening store e) (hid : id ∈ e.sched.started) :
    ¬ x.Downstream opening store e id := by
  intro hdown
  induction hdown with
  | failed hdependency hreads hfailed =>
    have := (h.reads _ hid).models _ hdependency hreads
    simp [hfailed, ExecutionStatus.isSatisfied] at this
  | seed hplanned hreads hresult hname hfailed =>
    have := ((h.reads _ hid).seeds _ hplanned hreads).2 _ hresult hname
    simp [hfailed, ExecutionStatus.isSatisfied] at this
  | @chain id dependency hdependency hreads hnone _ ih =>
    have hsat := (h.reads _ hid).models _ hdependency hreads
    refine ih (h.executed dependency ?_)
    cases hst : e.sched.status dependency with
    | running | passed | failed => simp
    | skipped => exact absurd hnone (h.carried dependency (Or.inl hst))
    | cached => exact absurd hnone (h.carried dependency (Or.inr hst))
    | pending | ready | blocked | cancelled =>
      simp [hst, ExecutionStatus.isSatisfied] at hsat

theorem startedInv_enter : x.StartedInv opening store (x.enter opening store) := by
  have hvalid : (x.prelude opening store).Valid := prelude_valid store
  have hstarted : (x.enter opening store).sched.started = [] := by
    rw [sched_enter]
    exact congrArg Prod.snd (Prelude.enter_flags x.schedule (x.prelude opening store))
  refine ⟨by simp [hstarted], ?_, ?_⟩
  · intro id hid
    rw [sched_enter] at hid
    rcases Prelude.enter_status x.schedule hvalid id with hq | hq | hq | hq <;>
      simp [hq] at hid
  · intro id hid
    rw [sched_enter] at hid
    exact (Prelude.enter_decided x.schedule hvalid).not_carried id hid

/-- The states of a run, with everything that is known about them. -/
structure Covered (x : Execution) (opening : Opening) (store : Option Store) (e : Exec) :
    Prop where
  reached : Prelude.Reached x.schedule (x.prelude opening store) e.sched
  shutdown : (x.prelude opening store).Shutdown e.sched
  started : x.StartedInv opening store e

theorem Covered.step {p : Planning} {exist : Core.Relation → Bool}
    (hfollows : x.Follows p exist) (hcovered : x.ReadsCovered opening store) {e e' : Exec}
    {event : Event} (h : x.Covered opening store e) (hstep : x.step e event = some e') :
    x.Covered opening store e' := by
  rcases step_cases hstep with ⟨id, startedAt, attemptStartedAt, failure, -, -, rfl⟩ |
    ⟨schedEvent, sched, -, hsched, rfl⟩
  · have hsame : (x.failAttempt e id startedAt attemptStartedAt failure).sched = e.sched :=
      failAttempt_sched ..
    refine ⟨hsame ▸ h.reached, hsame ▸ h.shutdown, ⟨fun j hj => ?_, ?_, ?_⟩⟩
    · rw [hsame] at hj
      exact (h.started.reads j hj).of_kept fun _ _ => by rw [hsame]
    · rw [hsame]
      exact h.started.executed
    · rw [hsame]
      exact h.started.carried
  · have hvalid : (x.prelude opening store).Valid := prelude_valid store
    have hreached := h.reached.step hvalid hsched
    have hkept : ∀ j, (e.sched.status j).isTerminal = true →
        (x.effects e sched event).sched.status j = e.sched.status j := by
      rw [effects_sched]
      exact fun j => h.reached.status_eq_of_terminal hsched
    refine ⟨?_, ?_, ⟨?_, ?_, ?_⟩⟩
    · rwa [effects_sched]
    · rw [effects_sched]
      exact h.shutdown.step h.reached hsched
    · intro j hj
      rcases started_of_step hstep with hsame | ⟨id, hstarts, hnew⟩
      · exact (h.started.reads j (hsame ▸ hj)).of_kept hkept
      · rw [hnew, List.mem_append, List.mem_singleton] at hj
        rcases hj with hj | rfl
        · exact (h.started.reads j hj).of_kept hkept
        · exact (readsSatisfied_of_starts hfollows hcovered h.reached h.shutdown
            hstarts).of_kept hkept
    · intro j hj
      rw [effects_sched] at hj ⊢
      have hsub : ∀ k ∈ e.sched.started, k ∈ sched.started := by
        intro k hk
        rcases Sched.started_of_stepTo (Sched.stepTo_of_step hsched) with hsame |
          ⟨-, -, id, -, hnew⟩
        · exact hsame ▸ hk
        · exact hnew ▸ List.mem_append_left _ hk
      rcases h.reached with ⟨-, hinv, -⟩ | ⟨u, c, -, -, -, -, hswept⟩
      · rcases hinv.dispatched_of_executed (Sched.stepTo_of_step hsched) hj with
          hold | hold | hold | ⟨-, hnew⟩
        · exact hsub j (h.started.executed j (Or.inl hold))
        · exact hsub j (h.started.executed j (Or.inr (Or.inl hold)))
        · exact hsub j (h.started.executed j (Or.inr (Or.inr hold)))
        · exact hnew ▸ List.mem_append_right _ (List.mem_singleton_self j)
      · -- after the sweep only cancellation requests arrive
        have hdone : e.sched.phase = .done := by
          rw [hswept, Sched.sweep_eq]
        refine hsub j (h.started.executed j ?_)
        cases Sched.stepTo_of_step hsched with
        | requestCancel => exact hj
        | head hp | fill hp | sweep hp | noticeCancel hp | passMain hp | failMain hp
        | passDrain hp | failDrain hp | abort hp => simp [hdone] at hp
    · intro j hj
      rw [effects_sched] at hj
      exact hreached.outcome_ne_none hj

/-- Every start of a run finds everything available that the model reads, and no
model downstream of a failure is ever executed. -/
theorem dependency_safety {p : Planning} {exist : Core.Relation → Bool}
    (hfollows : x.Follows p exist) (hcovered : x.ReadsCovered opening store)
    {events : List Event} {e : Exec}
    (hrun : x.loop.run (x.enter opening store) events = some e) :
    (∀ id, x.Starts e id →
      x.ReadsSatisfied (x.loadSeeds opening store).results e id) ∧
      ∀ id ∈ e.sched.started, ¬ x.Downstream opening store e id := by
  have h : x.Covered opening store e :=
    x.loop.run_invariant (fun _ _ _ h hstep => h.step hfollows hcovered hstep)
      ⟨reached_of_run (StepSystem.run_nil x.loop _), by
        rw [sched_enter]
        exact Prelude.enter_shutdown x.schedule (prelude_valid store), startedInv_enter⟩ hrun
  exact ⟨fun id hstarts => readsSatisfied_of_starts hfollows hcovered h.reached h.shutdown
    hstarts, fun id hid => h.started.not_downstream hid⟩

end Execution

/-! ## A read through an ephemeral model -/

namespace Sample

def hiddenRead : Compilation :=
  Core.Sample.staged [.model Core.Sample.stageModel.id] (by decide) (by simp)

def shownRead : Compilation :=
  Core.Sample.staged
    [.model Core.Sample.stageModel.id, .model Core.Sample.rawModel.id] (by decide) (by simp)

def reportId : ModelId :=
  Core.Sample.id "report" (Eq.refl true)

def buildStaged (compilation : Compilation)
    (h : ∀ planned ∈ [row Core.Sample.rawModel .build,
      row (Core.Sample.reportModel [] List.nodup_nil) .build],
      (compilation.model planned.id).isSome = true) : Execution :=
  execution compilation
    [row Core.Sample.rawModel .build, row (Core.Sample.reportModel [] List.nodup_nil) .build] []
    false (by decide) h

def buildHidden : Execution :=
  buildStaged hiddenRead (by decide +kernel)

def buildShown : Execution :=
  buildStaged shownRead (by decide +kernel)

end Sample

namespace Execution

theorem buildHidden_follows :
    @Follows januaryClock Sample.buildHidden
      (Sample.planning Sample.hiddenRead [Sample.reportId]) (fun _ => true) :=
  letI := januaryClock
  ⟨rfl, rfl, rfl, rfl, by decide +kernel, by decide +kernel, fun _ => "", fun _ => false,
    by decide +kernel⟩

theorem buildShown_follows :
    @Follows januaryClock Sample.buildShown
      (Sample.planning Sample.shownRead [Sample.reportId]) (fun _ => true) :=
  letI := januaryClock
  ⟨rfl, rfl, rfl, rfl, by decide +kernel, by decide +kernel, fun _ => "", fun _ => false,
    by decide +kernel⟩

/-- The planner's plan of the report builds both tables, and the loop starts the
report, which reads the first table through the ephemeral model, while the first
table is still being built. -/
theorem report_starts_before_raw :
    Sample.hiddenRead.topologicalOrder.isSome = true ∧
      @Follows januaryClock Sample.buildHidden
        (Sample.planning Sample.hiddenRead [Sample.reportId]) (fun _ => true) ∧
      Core.Sample.rawModel.id ∈ Sample.buildHidden.schedule.planned ∧
      Sample.buildHidden.compilation.Reads Sample.reportId Core.Sample.rawModel.id ∧
      ∃ e, (@loop Sample.buildHidden januaryClock).run
          (@enter Sample.buildHidden januaryClock Sample.opening (some Store.empty))
          [.tick "", .tick ""] = some e ∧
        Sample.buildHidden.Starts e Sample.reportId ∧
        e.sched.status Core.Sample.rawModel.id = .running := by
  have hrun : ((@loop Sample.buildHidden januaryClock).run
      (@enter Sample.buildHidden januaryClock Sample.opening (some Store.empty))
      [.tick "", .tick ""]).map (fun e => (e.sched.phase,
        e.sched.dispatched Sample.buildHidden.loopOptions,
        e.sched.status Core.Sample.rawModel.id)) =
      some (.fill, some Sample.reportId, .running) := by
    decide +kernel
  obtain ⟨e, he, hfields⟩ := Option.map_eq_some_iff.1 hrun
  simp only [Prod.mk.injEq] at hfields
  exact ⟨by decide +kernel, buildHidden_follows, by decide +kernel,
    .inlined (by decide +kernel : Core.Sample.stageModel.id ∈ _) (by decide +kernel)
      (.direct (by decide +kernel)),
    e, he, ⟨hfields.1, hfields.2.1⟩, hfields.2.2⟩

theorem buildShown_covered :
    @ReadsCovered januaryClock Sample.buildShown Sample.opening (some Store.empty) := by
  have hephemeral : ∀ id ∈ Sample.buildShown.schedule.planned,
      ∀ inner ∈ Sample.shownRead.modelDependencies id,
        Sample.shownRead.isEphemeral inner = true →
          inner = Core.Sample.stageModel.id ∧ id = Sample.reportId := by
    decide +kernel
  have hflat : ∀ inner ∈ Sample.shownRead.modelDependencies Core.Sample.stageModel.id,
      Sample.shownRead.isEphemeral inner = false ∧
        inner ∈ Sample.buildShown.schedule.plannedDependencies Sample.reportId := by
    decide +kernel
  have hsources : ∀ model ∈ Sample.shownRead.models, model.sourceDependencies = [] := by
    decide +kernel
  have hnever : ∀ id source, ¬ Sample.shownRead.ReadsSource id source := by
    intro id source hreads
    induction hreads with
    | @direct id source hsource =>
      unfold Compilation.sourceDependencies at hsource
      split at hsource
      · next model hmodel =>
          simp [hsources model (Compilation.mem_of_model hmodel)] at hsource
      · cases hsource
    | inlined _ _ _ ih => exact ih
  refine @ReadsCovered.mk januaryClock _ _ _ ?_ ?_
  · intro id hid hnone dependency hdependency hreads
    refine Or.inr (.single ⟨hid, hnone, ?_⟩)
    rcases Compilation.reads_iff.1 hreads with hdirect | ⟨inner, hinner, heph, hinlined⟩
    · exact Schedule.mem_plannedDependencies.2 ⟨hdirect, hdependency⟩
    · obtain ⟨rfl, rfl⟩ := hephemeral id hid inner hinner heph
      rcases Compilation.reads_iff.1 hinlined with hdirect | ⟨deeper, hdeeper, hdeep, -⟩
      · exact (hflat dependency hdirect).2
      · exact absurd ((hflat deeper hdeeper).1.symm.trans hdeep) (by decide)
  · exact fun id hid hnone source hreads => absurd hreads (hnever id source)

/-- Once the first table is built, the loop starts the report. -/
theorem dependency_safety_shownRead :
    ∃ e, (@loop Sample.buildShown januaryClock).run
        (@enter Sample.buildShown januaryClock Sample.opening (some Store.empty))
        [.tick "", .tick "", .tick "",
          .passed Core.Sample.rawModel.id ⟨"", "", "", none, none, ""⟩, .tick ""] = some e ∧
      Sample.buildShown.Starts e Sample.reportId ∧
      Sample.buildShown.ReadsSatisfied
        (@loadSeeds Sample.buildShown januaryClock Sample.opening (some Store.empty)).results
        e Sample.reportId := by
  have hrun : ((@loop Sample.buildShown januaryClock).run
      (@enter Sample.buildShown januaryClock Sample.opening (some Store.empty))
      [.tick "", .tick "", .tick "",
        .passed Core.Sample.rawModel.id ⟨"", "", "", none, none, ""⟩, .tick ""]).map
      (fun e => (e.sched.phase, e.sched.dispatched Sample.buildShown.loopOptions)) =
      some (.fill, some Sample.reportId) := by
    decide +kernel
  obtain ⟨e, he, hfields⟩ := Option.map_eq_some_iff.1 hrun
  simp only [Prod.mk.injEq] at hfields
  have hstarts : Sample.buildShown.Starts e Sample.reportId := hfields
  exact ⟨e, he, hstarts, (@dependency_safety januaryClock Sample.buildShown Sample.opening
    (some Store.empty) _ _ buildShown_follows buildShown_covered _ _ he).1 _ hstarts⟩

end Execution

end Engine
end PhloTransform
