import PhloTransform.Engine.Execution
import PhloTransform.Engine.LoopRun

/-!
# What executing a plan does to the store

The effects of a run never influence its control state, so the runner's loop
projects to the scheduling loop and everything proved about the latter holds of
the former.  What a run writes is described by the kinds of writes it emits.

Main results:

- Theorem `Execution.sched_enter`, `Execution.run_sched`: the projection.
- Theorem `Execution.reached_of_run`: the loop invariants hold of the runner.
-/

namespace PhloTransform.Engine

open Core (Compilation CompiledModel CompiledTest ModelId)
open Library (StepSystem)

theorem Exec.foldl_sched {α : Type*} {f : Exec → α → Exec} {g : Sched → α → Sched}
    {l : List α} (h : ∀ e, ∀ a ∈ l, (f e a).sched = g e.sched a) (e : Exec) :
    (l.foldl f e).sched = l.foldl g e.sched := by
  induction l generalizing e with
  | nil => rfl
  | cons a l ih =>
    rw [List.foldl_cons, List.foldl_cons, ih (fun e b hb => h e b (by simp [hb])),
      h e a (by simp)]

theorem Exec.foldl_part {α β : Type*} {f : Exec → α → Exec} (part : Exec → β)
    (h : ∀ e a, part (f e a) = part e) (l : List α) (e : Exec) : part (l.foldl f e) = part e := by
  induction l generalizing e with
  | nil => rfl
  | cons a l ih => rw [List.foldl_cons, ih, h]

/-- A planned model is compiled and has its row in the plan. -/
theorem Execution.exists_compiled {x : Execution} {id : ModelId}
    (hid : id ∈ x.schedule.planned) :
    ∃ model planned, x.compilation.model id = some model ∧ x.info id = some planned ∧
      planned ∈ x.plan.models ∧ planned.id = id := by
  obtain ⟨planned, hmem, rfl⟩ := List.mem_map.1 hid
  obtain ⟨model, hmodel⟩ := Option.isSome_iff_exists.1 (x.compiled planned hmem)
  refine ⟨model, planned, hmodel, ?_, hmem, rfl⟩
  exact ((⟨x.plan.models, x.plan.models_nodup⟩ :
    Library.Table PlannedModel.id).mem_rows_iff planned).1 hmem

variable [Rfc3339]

/-! ## Emitted writes -/

namespace Exec

variable {P : Write → Prop} {e e' : Exec}

@[simp]
theorem write_sched (e : Exec) (w : Write) : (e.write w).sched = e.sched := by
  unfold write
  split <;> rfl

@[simp]
theorem write_info (e : Exec) (w : Write) : (e.write w).info = e.info := by
  unfold write
  split <;> rfl

@[simp]
theorem write_results (e : Exec) (w : Write) : (e.write w).results = e.results := by
  unfold write
  split <;> rfl

theorem write_store (e : Exec) (w : Write) :
    (e.write w).store = e.store.map fun store => store.write w := by
  unfold write
  split <;> simp_all

@[simp]
theorem report_sched (e : Exec) (runId : String) (id : ModelId) (result : ModelResult) :
    (e.report runId id result).sched = e.sched := by
  simp [report]

@[simp]
theorem report_info (e : Exec) (runId : String) (id : ModelId) (result : ModelResult) :
    (e.report runId id result).info = e.info := by
  simp [report]

@[simp]
theorem report_results (e : Exec) (runId : String) (id : ModelId) (result : ModelResult) :
    (e.report runId id result).results = Function.update e.results id (some result) := by
  simp [report]

/-- `e'` comes from `e` by writes of some kind, all of them logged. -/
def Emits (P : Write → Prop) (e e' : Exec) : Prop :=
  ∃ ws : List Write, (∀ w ∈ ws, P w) ∧
    e'.store = (e.store.map fun store => ws.foldl Store.write store) ∧
    (e.store.isSome = true → e'.log = e.log ++ ws)

theorem Emits.of_eq (hstore : e'.store = e.store) (hlog : e'.log = e.log) : Emits P e e' :=
  ⟨[], by simp, by simp [hstore], fun _ => by simp [hlog]⟩

theorem Emits.trans {e'' : Exec} (h : Emits P e e') (h' : Emits P e' e'') : Emits P e e'' := by
  obtain ⟨ws, hws, hstore, hlog⟩ := h
  obtain ⟨ws', hws', hstore', hlog'⟩ := h'
  refine ⟨ws ++ ws', ?_, ?_, fun hsome => ?_⟩
  · intro w hw
    exact (List.mem_append.1 hw).elim (hws w) (hws' w)
  · rw [hstore', hstore, Option.map_map]
    simp [Function.comp_def]
  · rw [hlog' (by simpa [hstore] using hsome), hlog hsome, List.append_assoc]

theorem Emits.mono {Q : Write → Prop} (hPQ : ∀ w, P w → Q w) (h : Emits P e e') : Emits Q e e' := by
  obtain ⟨ws, hws, hstore, hlog⟩ := h
  exact ⟨ws, fun w hw => hPQ w (hws w hw), hstore, hlog⟩

theorem emits_write {w : Write} (hw : P w) (e : Exec) : Emits P e (e.write w) := by
  refine ⟨[w], by simpa using hw, by simp [write_store], fun hsome => ?_⟩
  obtain ⟨store, hstore⟩ := Option.isSome_iff_exists.1 hsome
  simp [write, hstore]

theorem emits_report (runId : String) (id : ModelId) (result : ModelResult)
    (h : P (.recordModel (result.record runId))) (e : Exec) :
    Emits P e (e.report runId id result) :=
  (Emits.of_eq rfl rfl).trans (emits_write h _)

theorem emits_foldl_of {α : Type*} {I : Exec → Prop} {f : Exec → α → Exec} {l : List α}
    (hI : ∀ e a, I e → I (f e a)) (h : ∀ e, I e → ∀ a ∈ l, Emits P e (f e a)) (e : Exec) (he : I e)
    : Emits P e (l.foldl f e) := by
  induction l generalizing e with
  | nil => exact .of_eq rfl rfl
  | cons a l ih =>
    exact (h e he a (by simp)).trans
      (ih (fun e he b hb => h e he b (by simp [hb])) _ (hI e a he))

theorem emits_foldl {α : Type*} {f : Exec → α → Exec} {l : List α}
    (h : ∀ e, ∀ a ∈ l, Emits P e (f e a)) (e : Exec) : Emits P e (l.foldl f e) :=
  emits_foldl_of (I := fun _ => True) (fun _ _ _ => trivial) (fun e _ => h e) e trivial

theorem Emits.frame {β : Type*} (part : Store → β)
    (hpart : ∀ store w, P w → part (store.write w) = part store) (h : Emits P e e') :
    e'.store.map part = e.store.map part := by
  obtain ⟨ws, hws, hstore, -⟩ := h
  rw [hstore, Option.map_map]
  congr 1
  funext store
  simp only [Function.comp_apply]
  clear hstore
  induction ws generalizing store with
  | nil => rfl
  | cons w ws ih =>
    rw [List.foldl_cons, ih fun v hv => hws v (by simp [hv])]
    exact hpart store w (hws w (by simp))

theorem Emits.isSome_store (h : Emits P e e') : e'.store.isSome = e.store.isSome := by
  obtain ⟨ws, -, hstore, -⟩ := h
  simp [hstore]

theorem Emits.mem_log (h : Emits P e e') (hsome : e.store.isSome = true) {w : Write}
    (hw : w ∈ e.log) : w ∈ e'.log := by
  obtain ⟨ws, -, -, hlog⟩ := h
  simp [hlog hsome, hw]

end Exec

namespace Execution

variable {x : Execution} {opening : Opening}
variable {e e' : Exec} {events : List Event}
variable {id : ModelId} {event : Event} {store : Option Store}

/-! ## The control state before the loop -/

omit [Rfc3339] in
theorem reuseOne_sched (e : Exec) (hid : id ∈ x.schedule.planned) :
    (x.reuseOne e id).sched = Sched.settle x.schedule x.reused e.sched id := by
  obtain ⟨model, planned, hmodel, -, -, -⟩ := exists_compiled hid
  unfold reuseOne Sched.settle
  by_cases hpending : e.sched.status id = .pending
  · simp only [hpending, if_true, hmodel]
    cases x.reused id <;> rfl
  · simp [hpending]

theorem settleOne_sched (e : Exec) (hid : id ∈ x.schedule.planned) :
    (x.settleOne opening e id).sched = Sched.settle x.schedule (x.settled opening) e.sched id := by
  obtain ⟨model, planned, hmodel, -, -, -⟩ := exists_compiled hid
  unfold settleOne Sched.settle
  by_cases hpending : e.sched.status id = .pending
  · simp only [hpending, if_true, hmodel]
    cases x.settled opening id with
    | some status => simp
    | none =>
      simp only
      split
      · split <;> rfl
      · rfl
  · simp [hpending]

/-- Reporting models leaves the control state and the plan's rows alone, and
gives each of them a result. -/
theorem reportAll_spec (status : ExecutionStatus) (failure : FailureCategory)
    (ids : List ModelId) (e : Exec) :
    (x.reportAll status failure e ids).sched = e.sched ∧
      (x.reportAll status failure e ids).info = e.info ∧
      ∀ j ∈ x.schedule.planned, ((x.reportAll status failure e ids).results j).map
          ModelResult.status =
        if j ∈ ids then some status else (e.results j).map ModelResult.status := by
  induction ids generalizing e with
  | nil => simp [reportAll]
  | cons id ids ih =>
    rw [reportAll, List.foldl_cons]
    cases hmodel : x.compilation.model id with
    | none =>
      obtain ⟨hsched, hinfo, hresults⟩ := ih e
      refine ⟨hsched, hinfo, fun j hj => (hresults j hj).trans ?_⟩
      have hne : j ≠ id := by
        rintro rfl
        obtain ⟨model, -, hsome, -⟩ := exists_compiled hj
        simp [hmodel] at hsome
      simp [hne]
    | some model =>
      obtain ⟨hsched, hinfo, hresults⟩ := ih (e.report x.runId id
        (modelResult model status [] (some failure) none none (e.info id)))
      refine ⟨hsched.trans (Exec.report_sched ..), hinfo.trans (Exec.report_info ..),
        fun j hj => (hresults j hj).trans ?_⟩
      by_cases hne : j = id
      · subst hne
        simp [modelResult]
      · simp [hne]

@[simp]
theorem reportBlocked_sched (e : Exec) (blocked : List ModelId) :
    (x.reportBlocked e blocked).sched = e.sched :=
  (reportAll_spec .blocked .dependency blocked e).1

theorem blockSeedReaderOne_sched (failed : List String) (e : Exec) (id : ModelId) :
    (x.blockSeedReaderOne failed e id).sched =
      Sched.blockSeedReader x.schedule (x.readsFailedSeed failed) e.sched id := by
  unfold blockSeedReaderOne Sched.blockSeedReader
  split
  · simp
  · rfl

theorem sched_enter (store : Option Store) :
    (x.enter opening store).sched = (x.prelude opening store).enter x.schedule := by
  unfold enter Prelude.enter
  simp only
  rw [Exec.foldl_sched fun e id _ => blockSeedReaderOne_sched _ e id,
    Exec.foldl_sched fun e id hid => settleOne_sched e hid,
    Exec.foldl_sched fun e id hid => reuseOne_sched e hid]
  rfl

theorem prelude_valid (store : Option Store) : (x.prelude opening store).Valid where
  reused := by
    intro id status h
    simp only [prelude, reused] at h
    split at h
    · split at h
      · exact Or.inr (Option.some.inj h).symm
      · cases h
    · cases h
  settled := by
    intro id status h
    simp only [prelude, settled] at h
    split at h
    · split at h
      · exact Or.inl (Option.some.inj h).symm
      · split at h
        · exact Or.inr (Option.some.inj h).symm
        · cases h
    · cases h

/-! ## The control state in the loop -/

@[simp]
theorem persistRunning_sched (e : Exec) (id : ModelId) (startedAt : String)
    (attempts : List Attempt) (failure : Option FailureCategory) :
    (x.persistRunning e id startedAt attempts failure).sched = e.sched := by
  unfold persistRunning
  split <;> simp

@[simp]
theorem failAttempt_sched (e : Exec) (id : ModelId) (startedAt attemptStartedAt : String)
    (failure : FailureCategory) :
    (x.failAttempt e id startedAt attemptStartedAt failure).sched = e.sched := by
  simp [failAttempt, keepFailure]

@[simp]
theorem advanceWatermark_sched (e : Exec) (model : CompiledModel)
    (completion : Completion) : (x.advanceWatermark e model completion).sched = e.sched := by
  unfold advanceWatermark
  split
  · split <;> simp
  · rfl

theorem effects_sched (e : Exec) (sched : Sched) (event : Event) :
    (x.effects e sched event).sched = sched := by
  cases event with
  | tick now =>
    simp only [effects]
    split
    · split <;> simp
    · exact (reportAll_spec _ _ _ _).1
    · rfl
  | passed id completion =>
    simp only [effects]
    split
    · split
      · simp [completeMain]
      · split <;> simp [completeDrain]
    · rfl
  | failed id startedAt finishedAt failure =>
    simp only [effects]
    split
    · split <;> simp
    · rfl
  | requestCancel | noticeCancel | abort _ | attemptFailed _ _ _ _ => rfl

/-- The cases of one event: a failed attempt, or a scheduler step with its
effects. -/
theorem step_cases (h : x.step e event = some e') :
    (∃ id startedAt attemptStartedAt failure,
        event = .attemptFailed id startedAt attemptStartedAt failure ∧
        id ∈ e.sched.inflight ∧
        e' = x.failAttempt e id startedAt attemptStartedAt failure) ∨
      ∃ schedEvent sched, event.sched = some schedEvent ∧
        e.sched.step x.schedule x.loopOptions schedEvent = some sched ∧
        e' = x.effects e sched event := by
  cases event with
  | attemptFailed id startedAt attemptStartedAt failure =>
    simp only [step] at h
    split at h
    · next hid => exact Or.inl ⟨id, startedAt, attemptStartedAt, failure, rfl, hid,
        (Option.some.inj h).symm⟩
    · cases h
  | tick _ | requestCancel | noticeCancel | passed _ _ | failed _ _ _ _ | abort _ =>
    simp only [step, Event.sched, Option.bind_some, Option.map_eq_some_iff] at h
    obtain ⟨sched, hsched, rfl⟩ := h
    exact Or.inr ⟨_, sched, rfl, hsched, rfl⟩

theorem run_sched (h : x.loop.run e events = some e') :
    (loopSystem x.schedule x.loopOptions).run e.sched (events.filterMap Event.sched) =
      some e'.sched := by
  induction events generalizing e with
  | nil =>
    cases h
    rfl
  | cons event events ih =>
    obtain ⟨mid, hstep, hrest⟩ := (StepSystem.run_cons_eq_some x.loop).1 h
    rcases step_cases hstep with ⟨id, startedAt, attemptStartedAt, failure, rfl, -, rfl⟩ |
      ⟨schedEvent, sched, hevent, hsched, rfl⟩
    · have := ih hrest
      rw [failAttempt_sched] at this
      rw [List.filterMap_cons_none rfl]
      exact this
    · have := ih hrest
      rw [effects_sched] at this
      rw [List.filterMap_cons_some hevent]
      exact (StepSystem.run_cons_eq_some _).2 ⟨sched, hsched, this⟩

/-- Every state of a run satisfies the invariants of the scheduling loop. -/
theorem reached_of_run {store : Option Store} {events : List Event} {e : Exec}
    (h : x.loop.run (x.enter opening store) events = some e) :
    Prelude.Reached x.schedule (x.prelude opening store) e.sched := by
  have hrun := run_sched h
  rw [sched_enter] at hrun
  exact Prelude.reached_of_run (prelude_valid store) hrun

/-! ## Results -/

/-- Exactly the models with a final status have a result, with that status. -/
def Agree (x : Execution) (e : Exec) : Prop :=
  ∀ id ∈ x.schedule.planned, (e.results id).map ModelResult.status =
    if (e.sched.status id).isTerminal then some (e.sched.status id) else none

omit [Rfc3339] in
theorem Agree.of_eq (h : x.Agree e) (hresults : e'.results = e.results)
    (hstatus : ∀ id, e'.sched.status id = e.sched.status id ∨
      (e.sched.status id).isTerminal = false ∧ (e'.sched.status id).isTerminal = false) :
    x.Agree e' := by
  intro id hid
  rw [hresults, h id hid]
  rcases hstatus id with hsame | ⟨hopen, hopen'⟩
  · rw [hsame]
  · simp [hopen, hopen']

omit [Rfc3339] in
/-- One model gets a final status and a result with that status. -/
theorem Agree.of_update (h : x.Agree e) (id : ModelId) (status : ExecutionStatus)
    (result : ModelResult) (hstatus : e'.sched.status = Function.update e.sched.status id status)
    (hresults : e'.results = Function.update e.results id (some result))
    (hresult : result.status = status) (hterm : status.isTerminal = true) : x.Agree e' := by
  intro j hj
  rw [hstatus, hresults]
  by_cases hne : j = id
  · subst hne
    simp [hresult, hterm]
  · simpa [hne] using h j hj

theorem Agree.reportAll {e e' : Exec} (h : x.Agree e) {status : ExecutionStatus}
    (failure : FailureCategory) (hterm : status.isTerminal = true) {ids : List ModelId}
    (hresults : e'.results = e.results)
    (hstatus : ∀ id, e'.sched.status id = if id ∈ ids then status else e.sched.status id) :
    x.Agree (x.reportAll status failure e' ids) := by
  intro id hid
  obtain ⟨hsched, -, hreported⟩ := reportAll_spec (x := x) status failure ids e'
  rw [hreported id hid, hsched, hstatus, hresults]
  by_cases hmem : id ∈ ids
  · simp [hmem, hterm]
  · simpa [hmem] using h id hid

omit [Rfc3339] in
theorem agree_reuseOne (h : x.Agree e) (id : ModelId) : x.Agree (x.reuseOne e id) := by
  unfold reuseOne
  split
  · split
    · next status model hstatus hmodel =>
        have hcached : status = .cached := by
          simp only [reused] at hstatus
          split at hstatus
          · split at hstatus
            · exact (Option.some.inj hstatus).symm
            · cases hstatus
          · cases hstatus
        exact h.of_update id status _ rfl rfl rfl (by rw [hcached]; rfl)
    · exact h
  · exact h

theorem carryOver_spec (e : Exec) (model : CompiledModel) :
    (x.carryOver opening e model).sched = e.sched ∧
      (x.carryOver opening e model).info = e.info ∧
      (x.carryOver opening e model).results = e.results := by
  unfold carryOver
  split
  · unfold adopt
    simp only
    split
    · split <;> simp
    · simp
  · exact ⟨rfl, rfl, rfl⟩

theorem agree_settleOne (h : x.Agree e) (id : ModelId) : x.Agree (x.settleOne opening e id) := by
  unfold settleOne
  split
  · split
    · next status model hstatus hmodel =>
        have hterm : status.isTerminal = true := by
          rcases (prelude_valid none).settled id status hstatus
            with rfl | rfl <;> rfl
        refine h.of_update id status (settledResult opening e model status) ?_ ?_ rfl hterm
        · simp
        · simp [(carryOver_spec e model).2.2]
    · split
      · split
        · exact h.of_eq rfl fun _ => Or.inl rfl
        · exact h
      · exact h
  · exact h

theorem agree_blockSeedReaderOne (failed : List String) (h : x.Agree e) (id : ModelId) :
    x.Agree (x.blockSeedReaderOne failed e id) := by
  unfold blockSeedReaderOne
  split
  · refine h.reportAll .dependency rfl rfl fun j => ?_
    have hstatus := Sched.failBelow_status x.schedule e.sched id j .blocked
    change (Sched.failBelow x.schedule e.sched id .blocked).status j = _
    rw [hstatus]
    by_cases hj : j = id
    · subst hj
      simp
    · simp [Sched.newlyBlocked, hj]
  · exact h

omit [Rfc3339] in
theorem agree_foldl (f : Exec → ModelId → Exec) (ids : List ModelId)
    (hf : ∀ e id, x.Agree e → x.Agree (f e id)) (h : x.Agree e) : x.Agree (ids.foldl f e) := by
  induction ids generalizing e with
  | nil => exact h
  | cons id ids ih => exact ih (hf e id h)

theorem loadSeeds_part {β : Type*} (part : Exec → β)
    (hwrite : ∀ e w, part (e.write w) = part e) (store : Option Store) :
    part (x.loadSeeds opening store).exec = part (x.fresh store) := by
  have hreport : ∀ (s : SeedLoads) (startedAt finishedAt : String) (result : SeedResult),
      part (s.report x.runId startedAt finishedAt result).exec = part s.exec :=
    fun s _ _ _ => hwrite s.exec _
  have hseed : ∀ (s : SeedLoads) (planned : PlannedSeed),
      part (x.loadSeed opening s planned).exec = part s.exec := by
    intro s planned
    unfold loadSeed
    split
    · rfl
    · simp only
      split
      · exact hreport ..
      · split
        · split
          · split
            · rfl
            · exact hreport ..
          · exact hreport ..
        · refine (hreport ..).trans ?_
          exact Exec.foldl_part part (fun e attempt => hwrite e _) _ s.exec
  have hfold : ∀ (seeds : List PlannedSeed) (s : SeedLoads),
      part (seeds.foldl (x.loadSeed opening) s).exec = part s.exec := by
    intro seeds
    induction seeds with
    | nil => exact fun _ => rfl
    | cons planned seeds ih => exact fun s => (ih _).trans (hseed s planned)
  rw [loadSeeds, hfold, openRun]
  split <;> exact hwrite _ _

theorem loadSeeds_results (store : Option Store) :
    (x.loadSeeds opening store).exec.results = fun _ => none :=
  loadSeeds_part Exec.results Exec.write_results store

theorem agree_enter (store : Option Store) : x.Agree (x.enter opening store) := by
  have hopened : ∀ e : Exec, e.results = (fun _ => none) →
      (∀ id, e.sched.status id = .pending) → x.Agree e := by
    intro e hresults hstatus id _
    simp [hresults, hstatus, ExecutionStatus.isTerminal]
  have hreused := agree_foldl x.reuseOne x.schedule.planned
    (fun _ id h => agree_reuseOne h id)
    (hopened
      { (x.loadSeeds opening store).exec with
        sched := Sched.initial x.schedule (x.loadSeeds opening store).cancelled
          (x.loadSeeds opening store).cancelled (x.loadSeeds opening store).failFast }
      (loadSeeds_results store) fun _ => rfl)
  have hsettled := agree_foldl (x.settleOne opening) x.schedule.planned
    (fun _ id h => agree_settleOne h id) hreused
  have hagree := agree_foldl
    (x.blockSeedReaderOne (failedSeedTargets (x.loadSeeds opening store).results))
    x.schedule.planned (fun _ id h => agree_blockSeedReaderOne _ h id) hsettled
  exact hagree.of_eq rfl fun _ => Or.inl rfl

@[simp]
theorem advanceWatermark_results (e : Exec) (model : CompiledModel)
    (completion : Completion) : (x.advanceWatermark e model completion).results = e.results := by
  unfold advanceWatermark
  split
  · split <;> simp
  · rfl

@[simp]
theorem persistRunning_results (e : Exec) (id : ModelId) (startedAt : String)
    (attempts : List Attempt) (failure : Option FailureCategory) :
    (x.persistRunning e id startedAt attempts failure).results = e.results := by
  unfold persistRunning
  split <;> simp

@[simp]
theorem failAttempt_results (e : Exec) (id : ModelId) (startedAt attemptStartedAt : String)
    (failure : FailureCategory) :
    (x.failAttempt e id startedAt attemptStartedAt failure).results = e.results := by
  simp [failAttempt, keepFailure]

omit [Rfc3339] in
/-- What filling does to a status: the model that is started runs. -/
theorem tickFill_status (options : LoopOptions) (s : Sched) (id : ModelId) :
    (s.tickFill options).status id = s.status id ∨
      s.status id = .pending ∧ (s.tickFill options).status id = .running := by
  unfold Sched.tickFill
  split
  · next first rest hready =>
      split
      · split
        · next hpending =>
            by_cases hid : id = first
            · subst hid
              exact Or.inr ⟨hpending, by simp⟩
            · exact Or.inl (by simp [hid])
        · exact Or.inl rfl
      · exact Or.inl rfl
  · split <;> exact Or.inl rfl

theorem agree_step (h : x.Agree e) (hinv : e.sched.LoopInv x.schedule)
    (hstep : x.step e event = some e') : x.Agree e' := by
  rcases step_cases hstep with ⟨id, startedAt, attemptStartedAt, failure, rfl, -, rfl⟩ |
    ⟨schedEvent, sched, hevent, hsched, rfl⟩
  · exact h.of_eq (by simp) fun _ => Or.inl (by simp)
  · have hto := Sched.stepTo_of_step hsched
    cases event with
    | attemptFailed _ _ _ _ => cases hevent
    | requestCancel =>
      cases hevent
      cases hto
      exact h.of_eq rfl fun _ => Or.inl rfl
    | noticeCancel =>
      cases hevent
      cases hto
      exact h.of_eq rfl fun _ => Or.inl rfl
    | abort id =>
      cases hevent
      cases hto
      exact h.of_eq rfl fun _ => Or.inl rfl
    | tick now =>
      cases hevent
      cases hto with
      | head hphase =>
        simp only [effects, hphase]
        exact h.of_eq rfl fun id => Or.inl (by simp [Sched.tickHead_status])
      | fill hphase =>
        have hkeep : ∀ id, (e.sched.tickFill x.loopOptions).status id =
            e.sched.status id ∨ (e.sched.status id).isTerminal = false ∧
              ((e.sched.tickFill x.loopOptions).status id).isTerminal = false := by
          intro id
          refine (tickFill_status x.loopOptions e.sched id).imp_right ?_
          rintro ⟨hpending, hrunning⟩
          simp [hpending, hrunning, ExecutionStatus.isTerminal]
        simp only [effects, hphase]
        split
        · exact h.of_eq (by simp) (by simpa using hkeep)
        · exact h.of_eq rfl hkeep
      | sweep hphase hidle =>
        simp only [effects, hphase]
        refine h.reportAll _ (Sched.leftoverStatus_isTerminal e.sched) rfl fun id => ?_
        simp [Sched.sweep_eq]
    | passed id completion =>
      cases hevent
      cases hto with
      | passMain hphase hid =>
        obtain ⟨model, -, hmodel, -⟩ := exists_compiled (hinv.planned_of_inflight hid)
        obtain rfl := Compilation.id_of_model hmodel
        simp only [effects, hmodel, hphase, if_true]
        exact h.of_update model.id .passed
          (x.passedResult { e with sched := e.sched.passMain x.schedule model.id } model
            completion)
          (by simp [completeMain, Sched.passMain]) (by simp [completeMain]) rfl rfl
      | passDrain hphase hid =>
        obtain ⟨model, -, hmodel, -⟩ := exists_compiled (hinv.planned_of_inflight hid)
        obtain rfl := Compilation.id_of_model hmodel
        have hrun := hinv.inflight_running _ hid
        simp only [effects, hmodel, hphase]
        exact h.of_update model.id .passed
          (x.passedResult { e with sched := e.sched.passDrain x.schedule model.id } model
            completion)
          (by simp [completeDrain, Sched.passDrain, hrun, ExecutionStatus.isTerminal])
          (by simp [completeDrain, hrun, ExecutionStatus.isTerminal]) rfl rfl
    | failed id startedAt finishedAt failure =>
      cases hevent
      have hreported : ∀ model sched', x.compilation.model id = some model →
          sched'.status = (Sched.failBelow x.schedule e.sched id .failed).status →
          x.Agree (x.reportBlocked
            ({ e with sched := sched' }.report x.runId id
              (modelResult model .failed (x.allAttempts e id) (some failure) (some startedAt)
                (some finishedAt) (e.info id)))
            (x.schedule.blockDependents id
              (Function.update e.sched.status id .failed)).2) := by
        intro model sched' _ hstatus
        have hfailed : x.Agree
            { e with
              sched := e.sched.finish id .failed
              results := Function.update e.results id (some
                (modelResult model .failed (x.allAttempts e id) (some failure)
                  (some startedAt) (some finishedAt) (e.info id))) } :=
          h.of_update id .failed _ rfl rfl rfl rfl
        refine hfailed.reportAll .dependency rfl (by simp) fun j => ?_
        simp only [Exec.report_sched, hstatus]
        exact Sched.failBelow_status x.schedule e.sched id j .failed
      cases hto with
      | failMain hphase hid =>
        obtain ⟨model, -, hmodel, -⟩ := exists_compiled (hinv.planned_of_inflight hid)
        simp only [effects, hmodel, hphase, ne_eq, not_true, false_and, if_false]
        exact hreported model _ hmodel (Sched.failMain_status e.sched id)
      | failDrain hphase hid =>
        obtain ⟨model, -, hmodel, -⟩ := exists_compiled (hinv.planned_of_inflight hid)
        have hopen : (e.sched.status id).isTerminal = false := by
          rw [hinv.inflight_running id hid]
          rfl
        simp only [effects, hmodel, hopen, Bool.false_eq_true, and_false, if_false]
        refine hreported model _ hmodel ?_
        simp [Sched.failDrain, hopen, Sched.failBelow, Sched.blockBelow, Sched.finish]

theorem agree_of_run (h : x.loop.run (x.enter opening store) events = some e) : x.Agree e := by
  have hboth : Prelude.Reached x.schedule (x.prelude opening store) e.sched ∧ x.Agree e := by
    refine x.loop.run_invariant
      (P := fun e => Prelude.Reached x.schedule (x.prelude opening store) e.sched ∧ x.Agree e)
      ?_ ⟨reached_of_run (StepSystem.run_nil x.loop _), agree_enter store⟩ h
    rintro e event e' ⟨hreached, hagree⟩ hstep
    have hreached' : Prelude.Reached x.schedule (x.prelude opening store) e'.sched := by
      rcases step_cases hstep with ⟨_, _, _, _, -, -, rfl⟩ | ⟨_, sched, -, hsched, rfl⟩
      · simpa using hreached
      · rw [effects_sched]
        exact hreached.step (prelude_valid store) hsched
    refine ⟨hreached', ?_⟩
    rcases hreached with ⟨-, hinv, -⟩ | ⟨u, c, hinv, -, -, hidle, hsched⟩
    · exact agree_step hagree hinv hstep
    · have hdone : e.sched.phase = .done ∧ e.sched.inflight = [] := by
        rw [hsched, Sched.sweep_eq]
        exact ⟨rfl, hidle⟩
      rcases step_cases hstep with ⟨id, _, _, _, -, hid, -⟩ |
        ⟨schedEvent, sched, hevent, hto, rfl⟩
      · simp [hdone.2] at hid
      · -- once the leftover models are swept, only a cancellation request arrives
        cases Sched.stepTo_of_step hto with
        | requestCancel =>
          cases event with
          | requestCancel => exact hagree.of_eq rfl fun _ => Or.inl rfl
          | tick _ | noticeCancel | attemptFailed _ _ _ _ | passed _ _ | failed _ _ _ _
          | abort _ => cases hevent
        | head hp | fill hp | sweep hp | noticeCancel hp | passMain hp | failMain hp
        | passDrain hp | failDrain hp | abort hp => simp [hdone.1] at hp
  exact hboth.2

/-! ## After the loop -/

section Closing

variable {closing : Closing}

variable (x closing) in
theorem runTests_spec (failed : List String) (tests : List CompiledTest) (runs : TestRuns) :
    let ran := tests.foldl (x.runTest closing failed) runs
    ran.exec.sched = runs.exec.sched ∧ ran.exec.results = runs.exec.results ∧
      ran.results = runs.results ++ tests.map (x.testResult closing runs.exec failed) := by
  induction tests generalizing runs with
  | nil => simp
  | cons test tests ih =>
    obtain ⟨hsched, hresults, htests⟩ := ih (x.runTest closing failed runs test)
    have hjudge : x.testResult closing (x.runTest closing failed runs test).exec failed =
        x.testResult closing runs.exec failed := by
      funext test
      simp [testResult, runTest]
    rw [List.foldl_cons]
    refine ⟨hsched.trans (by simp [runTest]), hresults.trans (by simp [runTest]), ?_⟩
    rw [htests, hjudge]
    simp [runTest]

@[simp]
theorem recordPassed_sched (e : Exec) (id : ModelId) :
    (x.recordPassed closing e id).sched = e.sched := by
  unfold recordPassed
  split
  · split <;> simp
  · rfl

@[simp]
theorem recordPassed_results (e : Exec) (id : ModelId) :
    (x.recordPassed closing e id).results = e.results := by
  unfold recordPassed
  split
  · split <;> simp
  · rfl

@[simp]
theorem recordLoaded_sched (e : Exec) (result : SeedResult) :
    (x.recordLoaded closing e result).sched = e.sched := by
  unfold recordLoaded
  split
  · split <;> simp
  · rfl

@[simp]
theorem recordLoaded_results (e : Exec) (result : SeedResult) :
    (x.recordLoaded closing e result).results = e.results := by
  unfold recordLoaded
  split
  · split <;> simp
  · rfl

variable (x closing) in
/-- Closing a run keeps the statuses and results of the loop and derives the
test results and the verdict from them. -/
theorem close_spec (e : Exec) (seeds : List SeedResult) :
    let r := x.close closing e seeds
    r.exec.sched = e.sched ∧ r.exec.results = e.results ∧ r.seeds = seeds ∧
      r.tests = x.testsToRun.map (x.testResult closing e (failedSeedTargets seeds)) ∧
      r.status = x.runStatus e seeds r.tests := by
  obtain ⟨hsched, hresults, htests⟩ := runTests_spec x closing
    (failedSeedTargets seeds) x.testsToRun ⟨e, []⟩
  refine ⟨?_, ?_, rfl, by simpa [close] using htests, ?_⟩
  · rw [← hsched]
    simp only [close, Exec.write_sched]
    rw [Exec.foldl_part Exec.sched recordLoaded_sched, Exec.foldl_part Exec.sched recordPassed_sched]
  · rw [← hresults]
    simp only [close, Exec.write_results]
    rw [Exec.foldl_part Exec.results recordLoaded_results,
      Exec.foldl_part Exec.results recordPassed_results]
  · simp only [close, runStatus, verdictStatuses, resultStatuses, hsched, hresults]

end Closing

/-- What a completed call did: a run of the loop to its end, then closing. -/
theorem execute_eq_some {closing : Closing} {r : RunResult} :
    x.execute opening closing store events = some r ↔
      ∃ e, x.loop.run (x.enter opening store) events = some e ∧ e.sched.phase = .done ∧
        r = x.close closing e (x.loadSeeds opening store).results := by
  unfold execute
  rw [Option.bind_eq_some_iff]
  refine exists_congr fun e => and_congr_right fun _ => ?_
  by_cases hdone : e.sched.phase = .done
  · simp [hdone, eq_comm]
  · simp [hdone]

end Execution
end PhloTransform.Engine
