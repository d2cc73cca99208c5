import PhloTransform.Engine.PassedRuns
import PhloTransform.Engine.RunWrites
import PhloTransform.Engine.WatermarkScope
import PhloTransform.Library.Slots

/-!
# What reuse rests on

A model is skipped when the record in the environment's scope vouches for its target, and
adopted when a record of its version carries an output identity that the target reported when
the plan was made and reports again when the plan is run.  Everything else is left to the loop.

Main results:

- Theorem `Planning.skipEvidence_of_plan`, `Planning.adoptionEvidence_of_plan`: what the rows of a
  plan rest on.
- Theorem `Execution.status_eq_of_settled`: the loop keeps what is skipped or adopted.
-/

namespace PhloTransform.Engine

open Core (Compilation CompiledModel ModelId Relation)
open Library (StepSystem)

/-! ## Evidence when the plan is made -/

namespace Planning

variable [Rfc3339] (p : Planning)
variable {model : CompiledModel}
variable {record : MaterializedRecord}

/-- The record in the environment's scope vouches for the model's target. -/
structure SkipEvidence (model : CompiledModel) (record : MaterializedRecord) : Prop where
  recorded : p.materialized model.id.logicalName = some record
  version : record.version.hash = model.version.hash
  target : record.target = model.target.display
  adapter : record.adapter = some p.view.name
  live : record.outputIdentity.isSome = true →
    p.view.outputIdentity model.target = record.outputIdentity

/-- A stored record of the model's version carries an identity that the target reports. -/
structure AdoptionEvidence (model : CompiledModel) (record : MaterializedRecord) : Prop where
  stored : ∃ store, p.store = some store ∧ record ∈ store.modelVersions.rows
  version : record.version.hash = model.version.hash
  adapter : record.adapter = some p.view.name
  identity : record.outputIdentity.isSome = true
  live : p.view.outputIdentity model.target = record.outputIdentity

/-- The record names the model's slot, or is the scope's own and its target moved. -/
def SlotOrMoved (model : CompiledModel) (record : MaterializedRecord) : Prop :=
  sameContentSlot record.target model.target = true ∨
    p.materialized model.id.logicalName = some record ∧ record.target ≠ model.target.display

variable {p} {planId : String} {plan : Plan} {exist : Relation → Bool}

theorem stored_of_materialized {modelId : String} (h : p.materialized modelId = some record) :
    ∃ store, p.store = some store ∧ record ∈ store.modelVersions.rows := by
  unfold materialized at h
  split at h
  · cases h
  · obtain ⟨store, hstore, hscope⟩ := Option.bind_eq_some_iff.1 h
    refine ⟨store, hstore, ?_⟩
    rw [materializedScope_apply] at hscope
    rcases mergeOne_cases hscope with ⟨hown, -⟩ | ⟨hfolded, -⟩
    · exact List.mem_of_find?_eq_some hown
    · obtain ⟨folded, -, hfolded⟩ := Option.bind_eq_some_iff.1 hfolded
      exact List.mem_of_find?_eq_some hfolded

/-- A record looked up by its version is stored, at that version. -/
theorem stored_of_byHash {versionHash : String} (h : record ∈ p.byHash exist versionHash) :
    (∃ store, p.store = some store ∧ record ∈ store.modelVersions.rows) ∧
      record.version.hash = versionHash := by
  unfold byHash at h
  cases hstore : p.store with
  | none => simp [hstore] at h
  | some store =>
    simp only [hstore] at h
    split at h
    · obtain ⟨hmem, hhash⟩ := List.mem_filter.1 h
      exact ⟨⟨store, rfl, hmem⟩, by simpa using hhash⟩
    · simp at h

/-- An identity found in the evidence was reported by the model's own target. -/
theorem outputIdentity_of_evidence (hok : p.compilation.isOk = true)
    (hmodel : model ∈ p.orderModels) {identity : Option String} (hsome : identity.isSome = true)
    (h : (p.evidence exist model).liveOutput = identity) :
    p.view.outputIdentity model.target = identity := by
  have hlive : p.liveOutput exist model.target.display = identity := h
  rw [liveOutput_eq hok exist hmodel] at hlive
  split at hlive
  · exact hlive
  · rw [← hlive] at hsome
    cases hsome

omit [Rfc3339] in
theorem isOk_of_not_blocked (h : p.blocked = false) : p.compilation.isOk = true := by
  simpa [blocked] using h

theorem decideModel_of_not_blocked (h : p.blocked = false) (model : CompiledModel) :
    p.decideModel exist model = Planner.decide p.view.name p.store.isSome p.force p.environment
      model (p.evidence exist model) := by
  simp [decideModel, h]

theorem skipEvidence_of_plan (hopen : p.blocked = false) (hmodel : model ∈ p.orderModels)
    (h : (p.plannedModel exist model).action = .skip) : ∃ record, p.SkipEvidence model record := by
  have hdecide : (p.decideModel exist model).action = .skip := h
  rw [decideModel_of_not_blocked hopen, Planner.decide_skip_iff] at hdecide
  obtain ⟨-, -, record, hcurrent, hadapter, htarget, hlive, hversion⟩ := hdecide
  exact ⟨record, hcurrent, hversion, htarget, hadapter, fun hsome =>
    outputIdentity_of_evidence (isOk_of_not_blocked hopen) hmodel hsome (hlive hsome)⟩

/-- What a row that adopts an output for its model rests on. -/
theorem adoptionEvidence_of_plan (hopen : p.blocked = false) (hmodel : model ∈ p.orderModels)
    (h : (p.plannedModel exist model).action = .cached) :
    ∃ record, p.AdoptionEvidence model record ∧ p.SlotOrMoved model record ∧
      (p.plannedModel exist model).reuse = some (.fromRecord record) := by
  have hdecide : (p.decideModel exist model).action = .cached := h
  have hreuse : (p.plannedModel exist model).reuse = (p.decideModel exist model).reuse := rfl
  rw [hreuse]
  rw [decideModel_of_not_blocked hopen] at hdecide ⊢
  obtain ⟨-, record, hadoptable, hrecord, hfrom⟩ := Planner.cached_of_decide hdecide
  have hlive := outputIdentity_of_evidence (isOk_of_not_blocked hopen) hmodel
    hadoptable.identity hadoptable.live
  rcases hfrom with ⟨-, helsewhere, -, hslot⟩ | ⟨hcurrent, hversion, hmoved⟩
  · obtain ⟨hstored, hversion⟩ := stored_of_byHash helsewhere
    exact ⟨record, ⟨hstored, hversion, hadoptable.adapter, hadoptable.identity, hlive⟩,
      Or.inl hslot, hrecord⟩
  · exact ⟨record, ⟨stored_of_materialized hcurrent, hversion, hadoptable.adapter,
      hadoptable.identity, hlive⟩, Or.inr ⟨hcurrent, hmoved⟩, hrecord⟩

end Planning

/-! ## What the loop keeps -/

namespace Prelude

variable {sch : Schedule} {p : Prelude}

theorem Reached.status_of_outcome (hp : p.Valid) {s : Sched} (h : Reached sch p s)
    {id : ModelId} (hid : id ∈ sch.planned) {status : ExecutionStatus}
    (hout : p.outcome id = some status) : s.status id = status := by
  rcases h with ⟨-, -, hdec⟩ | ⟨u, c, -, hdec, -, -, rfl⟩
  · exact hdec.carried id hid status hout
  · have hkept := hdec.carried id hid status hout
    have hterm : (u.status id).isTerminal = true := by
      rcases hp.outcome id status hout with rfl | rfl <;> rw [hkept] <;> rfl
    have hnot : id ∉ u.unfinished sch.planned := by
      simp [Sched.unfinished, hterm]
    rw [Sched.sweep_eq]
    simp only [hnot, if_false]
    exact hkept

theorem Reached.terminal_of_done {s : Sched} (h : Reached sch p s) (hdone : s.phase = .done)
    {id : ModelId} (hid : id ∈ sch.planned) : (s.status id).isTerminal = true := by
  rcases h with ⟨hlive, -, -⟩ | ⟨u, c, -, -, -, -, rfl⟩
  · exact absurd hdone hlive
  · rw [Sched.sweep_eq]
    simp only
    split
    · exact u.leftoverStatus_isTerminal
    · next hnot =>
        simpa [Sched.unfinished, hid] using hnot

end Prelude

/-! ## The rows of a run -/

namespace Execution

variable [Rfc3339] {x : Execution} {opening : Opening} {closing : Closing}
variable {id : ModelId}
variable {ids : List ModelId} {reuse : CacheSource}

@[simp]
theorem persistRunning_info (e : Exec) (id : ModelId) (startedAt : String)
    (attempts : List Attempt) (failure : Option FailureCategory) :
    (x.persistRunning e id startedAt attempts failure).info = e.info := by
  unfold persistRunning
  split <;> simp

@[simp]
theorem failAttempt_info (e : Exec) (id : ModelId) (startedAt attemptStartedAt : String)
    (failure : FailureCategory) :
    (x.failAttempt e id startedAt attemptStartedAt failure).info = e.info := by
  simp [failAttempt, keepFailure]

@[simp]
theorem advanceWatermark_info (e : Exec) (model : CompiledModel) (completion : Completion) :
    (x.advanceWatermark e model completion).info = e.info := by
  unfold advanceWatermark
  split
  · split <;> simp
  · rfl

theorem effects_info (e : Exec) (sched : Sched) (event : Event) :
    (x.effects e sched event).info = e.info := by
  cases event with
  | tick now =>
    simp only [effects]
    split
    · split <;> simp
    · exact (reportAll_spec _ _ _ _).2.1
    · rfl
  | passed id completion =>
    simp only [effects]
    split
    · split
      · simp [completeMain]
      · split <;> simp [completeDrain]
    · rfl
  | failed id startedAt finishedAt failure =>
    simp only [effects]
    split
    · split
      · rfl
      · exact (reportAll_spec _ _ _ _).2.1.trans (Exec.report_info ..)
    · rfl
  | requestCancel | noticeCancel | abort _ | attemptFailed _ _ _ _ => rfl

theorem run_info {e e' : Exec} {events : List Event} (h : x.loop.run e events = some e') :
    e'.info = e.info := by
  refine x.loop.run_rel (R := fun e e' => e'.info = e.info) (fun _ => rfl)
    (fun _ _ _ h h' => h'.trans h) (fun e event e' hstep => ?_) h
  rcases step_cases hstep with ⟨id, startedAt, attemptStartedAt, failure, -, -, rfl⟩ |
    ⟨-, sched, -, -, rfl⟩
  · exact failAttempt_info ..
  · exact effects_info ..

@[simp]
theorem recordPassed_info (e : Exec) (id : ModelId) :
    (x.recordPassed closing e id).info = e.info := by
  unfold recordPassed
  split
  · split <;> simp
  · rfl

@[simp]
theorem recordLoaded_info (e : Exec) (result : SeedResult) :
    (x.recordLoaded closing e result).info = e.info := by
  unfold recordLoaded
  split
  · split <;> simp
  · rfl

variable (x closing) in
theorem runTests_info (failed : List String) (tests : List Core.CompiledTest)
    (runs : TestRuns) :
    (tests.foldl (x.runTest closing failed) runs).exec.info = runs.exec.info := by
  induction tests generalizing runs with
  | nil => rfl
  | cons test tests ih => exact (ih _).trans (by simp [runTest])

variable (x closing) in
theorem close_info (e : Exec) (seeds : List SeedResult) :
    (x.close closing e seeds).exec.info = e.info := by
  simp only [close, Exec.write_info]
  rw [Exec.foldl_part Exec.info recordLoaded_info, Exec.foldl_part Exec.info recordPassed_info]
  exact runTests_info x closing _ _ _

/-! ## Adoptions whose evidence is gone -/

/-- Settling a model leaves the other rows and statuses alone. -/
theorem settleOne_ne (e : Exec) {j : ModelId} (hid : id ∈ x.schedule.planned) (hne : j ≠ id) :
    (x.settleOne opening e id).info j = e.info j ∧
      (x.settleOne opening e id).sched.status j = e.sched.status j := by
  constructor
  · unfold settleOne
    split
    · split
      · simp [(carryOver_spec e _).2.1]
      · split
        · split
          · simp [hne]
          · rfl
        · rfl
    · rfl
  · rw [settleOne_sched e hid]
    unfold Sched.settle
    split
    · split
      · simp [hne]
      · rfl
    · rfl

theorem foldl_settleOne_ne (hids : ∀ id ∈ ids, id ∈ x.schedule.planned) {j : ModelId} (hj : j ∉ ids)
    (e : Exec) : (ids.foldl (x.settleOne opening) e).info j = e.info j := by
  induction ids generalizing e with
  | nil => rfl
  | cons id ids ih =>
    obtain ⟨hne, hrest⟩ := List.ne_and_not_mem_of_not_mem_cons hj
    exact (ih (fun k hk => hids k (List.mem_cons_of_mem _ hk)) hrest _).trans
      (settleOne_ne e (hids id (List.mem_cons_self ..)) hne).1

/-- An adoption whose evidence is gone becomes a full rebuild. -/
theorem settleOne_demotes {e : Exec} {planned : PlannedModel}
    (hpending : e.sched.status id = .pending) (hnone : x.settled opening id = none)
    (hinfo : e.info id = some planned) (hcached : planned.action = .cached) :
    (x.settleOne opening e id).info id = some (demote planned) := by
  simp [settleOne, hpending, hnone, hinfo, hcached]

theorem foldl_settleOne_demotes (hnodup : ids.Nodup) (hids : ∀ id ∈ ids, id ∈ x.schedule.planned)
    (hid : id ∈ ids) {planned : PlannedModel} (hnone : x.settled opening id = none)
    (hcached : planned.action = .cached) {e : Exec} (hpending : e.sched.status id = .pending)
    (hinfo : e.info id = some planned) :
    (ids.foldl (x.settleOne opening) e).info id = some (demote planned) := by
  induction ids generalizing e with
  | nil => cases hid
  | cons j ids ih =>
    rw [List.nodup_cons] at hnodup
    have hrest : ∀ k ∈ ids, k ∈ x.schedule.planned :=
      fun k hk => hids k (List.mem_cons_of_mem _ hk)
    rw [List.foldl_cons]
    rcases List.mem_cons.1 hid with rfl | hid
    · rw [foldl_settleOne_ne hrest hnodup.1]
      exact settleOne_demotes hpending hnone hinfo hcached
    · have hne : id ≠ j := fun heq => hnodup.1 (heq ▸ hid)
      obtain ⟨hrow, hstatus⟩ : (x.settleOne opening e j).info id = e.info id ∧
          (x.settleOne opening e j).sched.status id = e.sched.status id :=
        settleOne_ne e (hids j (List.mem_cons_self ..)) hne
      exact ih hnodup.2 hrest hid (hstatus.trans hpending) (hrow.trans hinfo)

omit [Rfc3339] in
theorem reused_eq_none (hprior : x.prior = .none) (id : ModelId) : x.reused id = none := by
  unfold reused
  split
  · simp [hprior, PriorRun.reusableModel, PriorRun.none]
  · rfl

omit [Rfc3339] in
theorem foldl_reuseOne_of_prior_none (hprior : x.prior = .none) (ids : List ModelId)
    (e : Exec) : ids.foldl x.reuseOne e = e := by
  induction ids generalizing e with
  | nil => rfl
  | cons id ids ih =>
    have hone : x.reuseOne e id = e := by
      simp [reuseOne, reused_eq_none hprior]
    rw [List.foldl_cons, hone, ih]

/-- The row of such an adoption when the loop is entered. -/
theorem enter_info_demoted (hprior : x.prior = .none) {planned : PlannedModel}
    (hid : id ∈ x.schedule.planned) (hinfo : x.info id = some planned)
    (hcached : planned.action = .cached) (hnone : x.settled opening id = none)
    (store : Option Store) : (x.enter opening store).info id = some (demote planned) := by
  have hblocks : ∀ (failed : List String) (e : Exec),
      (x.schedule.planned.foldl (x.blockSeedReaderOne failed) e).info = e.info := by
    intro failed
    refine Exec.foldl_part Exec.info (fun e id => ?_) _
    unfold blockSeedReaderOne
    split
    · exact (reportAll_spec _ _ _ _).2.1
    · rfl
  simp only [enter]
  rw [hblocks, foldl_reuseOne_of_prior_none hprior]
  refine foldl_settleOne_demotes x.schedule.planned_nodup (fun _ h => h) hid hnone hcached
    rfl ?_
  have hloads : (x.loadSeeds opening store).exec.info = (x.fresh store).info :=
    loadSeeds_part Exec.info Exec.write_info store
  exact (congrFun hloads id).trans hinfo

/-! ## What is skipped or adopted -/

section

omit [Rfc3339]

theorem settled_eq_skipped (h : x.settled opening id = some .skipped) :
    ∃ planned, x.info id = some planned ∧ planned.action = .skip := by
  unfold settled at h
  split at h
  · next planned hinfo =>
      split at h
      · next haction => exact ⟨planned, hinfo, haction⟩
      · split at h <;> cases h
  · cases h

theorem adoption_eq_some (h : x.adoption opening id = some reuse) :
    ∃ planned, x.info id = some planned ∧ planned.action = .cached ∧
      planned.reuse = some reuse ∧ opening.verified id = some reuse.outputIdentity := by
  obtain ⟨planned, hinfo, hsome⟩ := Option.bind_eq_some_iff.1 h
  split at hsome
  · next haction =>
      obtain ⟨hreuse, hverified⟩ := Option.filter_eq_some_iff.1 hsome
      exact ⟨planned, hinfo, haction, hreuse, by simpa using hverified⟩
  · cases hsome

theorem settled_eq_cached (h : x.settled opening id = some .cached) :
    ∃ reuse, x.adoption opening id = some reuse := by
  unfold settled at h
  split at h
  · split at h
    · cases h
    · split at h
      · next hsome => exact Option.isSome_iff_exists.1 hsome
      · cases h
  · cases h

theorem settled_of_adoption (h : x.adoption opening id = some reuse) :
    x.settled opening id = some .cached := by
  obtain ⟨planned, hinfo, haction, -, -⟩ := adoption_eq_some h
  simp [settled, hinfo, haction, h]

end

variable {store : Option Store} {events : List Event} {r : RunResult}

/-- In a run that continues no other, a model ends skipped or cached exactly when it was
settled so before the loop. -/
theorem status_iff_settled (hprior : x.prior = .none)
    (hrun : x.execute opening closing store events = some r) (hid : id ∈ x.schedule.planned)
    {status : ExecutionStatus} (hstatus : status = .skipped ∨ status = .cached) :
    r.exec.sched.status id = status ↔ x.settled opening id = some status := by
  obtain ⟨e, hloop, -, rfl⟩ := execute_eq_some.1 hrun
  rw [(close_spec x closing e (x.loadSeeds opening store).results).1]
  have hreached := reached_of_run hloop
  have hvalid : (x.prelude opening store).Valid := prelude_valid store
  have hout : (x.prelude opening store).outcome id = x.settled opening id := by
    simp [Prelude.outcome, prelude, reused_eq_none hprior]
  constructor
  · intro h
    have hcarried : (x.prelude opening store).outcome id ≠ none :=
      hreached.outcome_ne_none (h ▸ hstatus)
    obtain ⟨status', hsome⟩ := Option.ne_none_iff_exists'.1 hcarried
    rw [← hout, hsome, ← h, hreached.status_of_outcome hvalid hid hsome]
  · intro h
    exact hreached.status_of_outcome hvalid hid (hout.trans h)

theorem terminal_of_execute (hrun : x.execute opening closing store events = some r)
    (hid : id ∈ x.schedule.planned) : (r.exec.sched.status id).isTerminal = true := by
  obtain ⟨e, hloop, hdone, rfl⟩ := execute_eq_some.1 hrun
  rw [(close_spec x closing e (x.loadSeeds opening store).results).1]
  exact (reached_of_run hloop).terminal_of_done hdone hid

/-- A planned adoption that did not come about was left to the loop as a full rebuild. -/
theorem info_of_execute (hprior : x.prior = .none)
    (hrun : x.execute opening closing store events = some r) (hid : id ∈ x.schedule.planned)
    {planned : PlannedModel} (hinfo : x.info id = some planned) (hcached : planned.action = .cached)
    (hstatus : r.exec.sched.status id ≠ .cached) : r.exec.info id = some (demote planned) := by
  have hnone : x.settled opening id = none := by
    by_contra hne
    obtain ⟨status, hsome⟩ := Option.ne_none_iff_exists'.1 hne
    have hvalid : (x.prelude opening store).Valid := prelude_valid store
    rcases hvalid.settled id status hsome with rfl | rfl
    · obtain ⟨other, hother, hskip⟩ := settled_eq_skipped hsome
      rw [hinfo, Option.some.injEq] at hother
      rw [← hother, hcached] at hskip
      cases hskip
    · exact hstatus ((status_iff_settled hprior hrun hid (Or.inr rfl)).2 hsome)
  obtain ⟨e, hloop, -, rfl⟩ := execute_eq_some.1 hrun
  rw [close_info, run_info hloop]
  exact enter_info_demoted hprior hid hinfo hcached hnone store

/-! ## What is recorded -/

open Exec (Emits)

/-- A recorded materialisation is one that the run adopted. -/
def recordsAdopted (x : Execution) (opening : Opening) : Write → Prop
  | .recordMaterialized record => ∃ id ∈ x.schedule.planned, ∃ model reuse,
      x.compilation.model id = some model ∧ x.adoption opening id = some reuse ∧
        record = x.materializedRecord model (some reuse.outputIdentity) reuse.runId
          reuse.materializedAt
  | _ => True

/-- A recorded materialisation is one that passed with its result. -/
def recordsBuilt (x : Execution) (closing : Closing)
    (results : ModelId → Option ModelResult) : Write → Prop
  | .recordMaterialized record => ∃ id ∈ x.schedule.planned, ∃ model result,
      x.compilation.model id = some model ∧ results id = some result ∧
        result.status = .passed ∧
        record = x.materializedRecord model result.outputIdentity x.runId closing.finishedAt
  | _ => True

omit [Rfc3339] in
theorem recordsAdopted_of_isHistory {w : Write} (h : w.isHistory) : recordsAdopted x opening w := by
  cases w <;> first | exact trivial | exact h.elim

theorem emits_settleOne_adopted (e : Exec) (hid : id ∈ x.schedule.planned) :
    Emits (recordsAdopted x opening) e (x.settleOne opening e id) := by
  have hcarry : ∀ model, x.compilation.model id = some model → model.id = id →
      Emits (recordsAdopted x opening) e (x.carryOver opening e model) := by
    intro model hmodel hname
    unfold carryOver
    split
    · next reuse hadoption =>
        have hwrite : recordsAdopted x opening (.recordMaterialized
            (x.materializedRecord model (some reuse.outputIdentity) reuse.runId
              reuse.materializedAt)) :=
          ⟨id, hid, model, reuse, hmodel, hname ▸ hadoption, rfl⟩
        unfold adopt
        simp only
        split
        · split
          · exact (Exec.emits_write hwrite e).trans (Exec.emits_write trivial _)
          · exact Exec.emits_write hwrite e
        · exact Exec.emits_write hwrite e
    · exact .of_eq rfl rfl
  unfold settleOne
  split
  · split
    · next model _ hmodel =>
        exact ((hcarry model hmodel (Compilation.id_of_model hmodel)).trans
          (emits_sched _ _)).trans (Exec.emits_report _ _ _ trivial _)
    · split
      · split <;> exact .of_eq rfl rfl
      · exact .of_eq rfl rfl
  · exact .of_eq rfl rfl

theorem emits_recordPassed_built {results : ModelId → Option ModelResult} (e : Exec)
    (hresults : e.results = results) (hid : id ∈ x.schedule.planned) :
    Emits (recordsBuilt x closing results) e (x.recordPassed closing e id) := by
  unfold recordPassed
  split
  · next result model hresult hmodel =>
      split
      · next hpassed =>
          have hwrite : recordsBuilt x closing results (.recordMaterialized
              (x.materializedRecord model result.outputIdentity x.runId closing.finishedAt)) :=
            ⟨id, hid, model, result, hmodel, hresults ▸ hresult, hpassed.1, rfl⟩
          exact Exec.emits_write hwrite e
      · exact .of_eq rfl rfl
  · exact .of_eq rfl rfl

theorem emits_execute_records {store : Option Store} {events : List Event} {r : RunResult}
    (hrun : x.execute opening closing store events = some r) :
    Emits (fun w => recordsAdopted x opening w ∨ recordsBuilt x closing r.exec.results w)
      (x.fresh store) r.exec := by
  obtain ⟨e, hloop, -, rfl⟩ := execute_eq_some.1 hrun
  have hresults := (close_spec x closing e (x.loadSeeds opening store).results).2.1
  have henter : Emits (recordsAdopted x opening) (x.fresh store) (x.enter opening store) :=
    emits_enter_of_settleOne (fun _ => recordsAdopted_of_isHistory)
      (fun e _ hid => emits_settleOne_adopted e hid) store
  have hpart : Emits (recordsAdopted x opening) (x.enter opening store) e :=
    (emits_loop hloop).mono fun w hw => by
      cases w <;> first | exact trivial | exact hw.elim
  have hclose : Emits (recordsBuilt x closing e.results) e
      (x.close closing e (x.loadSeeds opening store).results).exec := by
    refine emits_close_of_recordPassed (fun w hw _ => ?_) (fun _ _ w hw => ?_) e
      fun e' he' id hid => emits_recordPassed_built e' he' hid
    · cases w <;> first | exact trivial | exact hw.elim
    · cases w <;> first | exact trivial | exact hw.elim
  rw [hresults]
  exact ((henter.trans hpart).mono fun _ => Or.inl).trans (hclose.mono fun _ => Or.inr)

end Execution

/-! ## Runs that reuse on evidence -/

section Runs

open Execution (RunResult)

variable [Rfc3339]

def Execution.RunResult.ended (r : RunResult) (id : ModelId) : Option ExecutionStatus :=
  (r.exec.results id).map ModelResult.status

/-- Models are skipped on the evidence of their scope and adopted from adoptable records only,
and a run records nothing but what it built or adopted. -/
structure ReusesOnly (p : Planning) (r : RunResult)
    (adoptable : CompiledModel → MaterializedRecord → Prop) : Prop where
  skipped : ∀ model ∈ p.orderModels, r.ended model.id = some .skipped →
    ∃ record, p.SkipEvidence model record
  cached : ∀ model ∈ p.orderModels, r.ended model.id = some .cached →
    ∃ record, adoptable model record
  recorded : r.exec.store.isSome = true → ∀ record,
    Write.recordMaterialized record ∈ r.exec.log → ∃ model ∈ p.orderModels,
      record.modelId = model.id.logicalName ∧
        (r.ended model.id = some .passed ∨
          r.ended model.id = some .cached ∧ ∃ source, adoptable model source ∧
            record.outputIdentity = source.outputIdentity ∧ record.runId = source.runId ∧
              record.materializedAt = source.materializedAt)

/-- Adopted records name the slot and carry a text that the target reports twice, and all that
is not reused is rebuilt in full or fails. -/
structure RebuildsOtherwise (p : Planning) (opening : Opening) (r : RunResult) : Prop where
  reuses : ReusesOnly p r fun model record => p.AdoptionEvidence model record ∧
    record.outputIdentity ≠ some "" ∧ sameContentSlot record.target model.target = true ∧
      opening.verified model.id = record.outputIdentity
  rebuilt : ∀ model ∈ p.orderModels, r.ended model.id ≠ some .skipped →
    r.ended model.id ≠ some .cached → r.ended model.id = some .failed ∨
      r.ended model.id = some .passed ∧
        (r.exec.info model.id).map PlannedModel.fullRebuild = some true

/-- Adopted records carry an identity that the target reports twice, a planned adoption that
does not come about is left as a full rebuild, and all that is not reused is built, fails, is
blocked or is cancelled. -/
structure ReusesOnEvidence (p : Planning) (plan : Plan) (opening : Opening) (r : RunResult) :
    Prop where
  reuses : ReusesOnly p r fun model record => p.AdoptionEvidence model record ∧
    p.SlotOrMoved model record ∧ opening.verified model.id = record.outputIdentity
  demoted : ∀ planned ∈ plan.models, planned.action = .cached →
    r.ended planned.id ≠ some .cached → r.exec.info planned.id = some (Execution.demote planned)
  otherwise : ∀ model ∈ p.orderModels, r.ended model.id ≠ some .skipped →
    r.ended model.id ≠ some .cached → r.ended model.id = some .passed ∨
      r.ended model.id = some .failed ∨ r.ended model.id = some .blocked ∨
        r.ended model.id = some .cancelled

/-- The run executes the rows of a plan without errors, and continues no other run. -/
structure Execution.Executes (x : Execution) (p : Planning) (exist : Relation → Bool) : Prop where
  unblocked : p.blocked = false
  rows : x.plan.models = p.orderModels.map (p.plannedModel exist)
  prior : x.prior = .none

namespace Execution.Executes

variable {x : Execution} {p : Planning} {exist : Relation → Bool} {opening : Opening}
  {closing : Closing} {store : Option Store} {events : List Execution.Event} {r : RunResult}
variable {model : CompiledModel}

theorem of_apply {planId : String} {plan : Plan} (hplan : p.plan planId = .ok plan)
    {compilation : Compilation} {options : RunOptions} {adapterName runId : String}
    (happly : Runner.apply compilation plan options adapterName runId = .ok x) :
    ∃ exist, x.Executes p exist := by
  obtain ⟨exist, -, -, -, hblocked, hmodels, -, -⟩ := Planning.plan_eq_ok hplan
  obtain ⟨hunblocked, -, rfl, -, -, -, hprior, -⟩ := Runner.apply_eq_ok happly
  exact ⟨exist, hblocked ▸ hunblocked, hmodels, hprior⟩

theorem mem_planned (h : x.Executes p exist) (hmodel : model ∈ p.orderModels) :
    model.id ∈ x.schedule.planned := by
  refine List.mem_map.2 ⟨p.plannedModel exist model, ?_, rfl⟩
  rw [h.rows]
  exact List.mem_map_of_mem hmodel

theorem exists_model (h : x.Executes p exist) {id : ModelId} (hid : id ∈ x.schedule.planned) :
    ∃ model ∈ p.orderModels, model.id = id := by
  obtain ⟨planned, hplanned, rfl⟩ := List.mem_map.1 hid
  rw [h.rows] at hplanned
  obtain ⟨model, hmodel, rfl⟩ := List.mem_map.1 hplanned
  exact ⟨model, hmodel, rfl⟩

theorem info_eq (h : x.Executes p exist) (hmodel : model ∈ p.orderModels) :
    x.info model.id = some (p.plannedModel exist model) := by
  obtain ⟨-, planned, -, hinfo, hplanned, hid⟩ := exists_compiled (h.mem_planned hmodel)
  rw [h.rows] at hplanned
  obtain ⟨other, hother, rfl⟩ := List.mem_map.1 hplanned
  obtain rfl : other = model := List.inj_on_of_nodup_map
    (p.orderModels_id ▸ p.order_nodup) hother hmodel hid
  exact hinfo

/-- A model is settled as skipped on the evidence of its scope. -/
theorem skipEvidence (h : x.Executes p exist) (hmodel : model ∈ p.orderModels)
    (hsettled : x.settled opening model.id = some .skipped) :
    ∃ record, p.SkipEvidence model record := by
  obtain ⟨planned, hinfo, hskip⟩ := settled_eq_skipped hsettled
  rw [h.info_eq hmodel, Option.some.injEq] at hinfo
  exact Planning.skipEvidence_of_plan h.unblocked hmodel (hinfo ▸ hskip)

/-- A model is adopted from a record of its version, whose identity is reported once more. -/
theorem adoptionEvidence (h : x.Executes p exist) (hmodel : model ∈ p.orderModels)
    {reuse : CacheSource} (hadoption : x.adoption opening model.id = some reuse) :
    ∃ record, (p.AdoptionEvidence model record ∧ p.SlotOrMoved model record ∧
      opening.verified model.id = record.outputIdentity) ∧ reuse = .fromRecord record := by
  obtain ⟨planned, hinfo, hcached, hreuse, hverified⟩ := adoption_eq_some hadoption
  rw [h.info_eq hmodel, Option.some.injEq] at hinfo
  subst hinfo
  obtain ⟨record, hevidence, hslot, hrecord⟩ :=
    Planning.adoptionEvidence_of_plan h.unblocked hmodel hcached
  rw [hreuse, Option.some.injEq] at hrecord
  refine ⟨record, ⟨hevidence, hslot, ?_⟩, hrecord⟩
  obtain ⟨identity, hidentity⟩ := Option.isSome_iff_exists.1 hevidence.identity
  rw [hverified, hrecord, hidentity, CacheSource.fromRecord, hidentity]
  rfl

theorem ended_eq (h : x.Executes p exist) (hrun : x.execute opening closing store events = some r)
    (hmodel : model ∈ p.orderModels) : r.ended model.id = some (r.exec.sched.status model.id) :=
  result_of_execute hrun (h.mem_planned hmodel)
    (terminal_of_execute hrun (h.mem_planned hmodel))

theorem ended_iff_settled (h : x.Executes p exist)
    (hrun : x.execute opening closing store events = some r) (hmodel : model ∈ p.orderModels)
    {status : ExecutionStatus} (hstatus : status = .skipped ∨ status = .cached) :
    r.ended model.id = some status ↔ x.settled opening model.id = some status := by
  rw [h.ended_eq hrun hmodel, Option.some.injEq]
  exact status_iff_settled h.prior hrun (h.mem_planned hmodel) hstatus

/-- What is skipped, adopted or recorded rests on evidence. -/
theorem reusesOnly (h : x.Executes p exist)
    (hrun : x.execute opening closing store events = some r) :
    ReusesOnly p r fun model record => p.AdoptionEvidence model record ∧
      p.SlotOrMoved model record ∧ opening.verified model.id = record.outputIdentity where
  skipped := by
    intro model hmodel hended
    exact h.skipEvidence hmodel ((h.ended_iff_settled hrun hmodel (Or.inl rfl)).1 hended)
  cached := by
    intro model hmodel hended
    obtain ⟨reuse, hadoption⟩ :=
      settled_eq_cached ((h.ended_iff_settled hrun hmodel (Or.inr rfl)).1 hended)
    obtain ⟨record, hevidence, -⟩ := h.adoptionEvidence hmodel hadoption
    exact ⟨record, hevidence⟩
  recorded := by
    intro hsome record hrecord
    have hemits := emits_execute_records hrun
    obtain ⟨ws, hws, -, hlog⟩ := id hemits
    rw [hemits.isSome_store] at hsome
    have hmem : Write.recordMaterialized record ∈ ws := by
      rw [hlog hsome] at hrecord
      simpa [fresh] using hrecord
    rcases hws _ hmem with ⟨id, hid, compiled, reuse, hcompiled, hadoption, rfl⟩ |
      ⟨id, hid, compiled, result, hcompiled, hresult, hpassed, rfl⟩
    · obtain ⟨model, hmodel, rfl⟩ := h.exists_model hid
      obtain ⟨source, hevidence, rfl⟩ := h.adoptionEvidence hmodel hadoption
      have hname : compiled.id = model.id := Compilation.id_of_model hcompiled
      have hcached : r.ended model.id = some .cached :=
        (h.ended_iff_settled hrun hmodel (Or.inr rfl)).2 (settled_of_adoption hadoption)
      obtain ⟨identity, hidentity⟩ := Option.isSome_iff_exists.1 hevidence.1.identity
      refine ⟨model, hmodel, congrArg ModelId.logicalName hname,
        Or.inr ⟨hcached, source, hevidence, ?_, rfl, rfl⟩⟩
      rw [hidentity]
      simp [materializedRecord, CacheSource.fromRecord, hidentity]
    · obtain ⟨model, hmodel, rfl⟩ := h.exists_model hid
      have hname : compiled.id = model.id := Compilation.id_of_model hcompiled
      refine ⟨model, hmodel, congrArg ModelId.logicalName hname, Or.inl ?_⟩
      rw [RunResult.ended, hresult, Option.map_some, hpassed]

end Execution.Executes

/-- Whatever a plan and a run of it find in the state and hear from the adapter, what they reuse
rests on evidence. -/
theorem reusesOnEvidence_of_execute {p : Planning} {planId : String} {plan : Plan}
    (hplan : p.plan planId = .ok plan) {compilation : Compilation} {options : RunOptions}
    {adapterName runId : String} {x : Execution}
    (happly : Runner.apply compilation plan options adapterName runId = .ok x)
    {opening : Opening} {closing : Closing} {store : Option Store}
    {events : List Execution.Event} {r : RunResult}
    (hrun : x.execute opening closing store events = some r) :
    ReusesOnEvidence p plan opening r := by
  obtain ⟨exist, h⟩ := Execution.Executes.of_apply hplan happly
  obtain ⟨-, -, hrows, -⟩ := Runner.apply_eq_ok happly
  constructor
  · exact h.reusesOnly hrun
  · intro planned hplanned hcached hended
    have hmem : planned.id ∈ x.schedule.planned := by
      rw [← hrows] at hplanned
      exact List.mem_map_of_mem hplanned
    obtain ⟨model, hmodel, hid⟩ := h.exists_model hmem
    rw [← hrows, h.rows] at hplanned
    obtain ⟨other, hother, rfl⟩ := List.mem_map.1 hplanned
    have hstatus : r.exec.sched.status other.id ≠ .cached := by
      intro hcontra
      exact hended ((h.ended_eq hrun hother).trans (congrArg some hcontra))
    exact Execution.info_of_execute h.prior hrun (h.mem_planned hother) (h.info_eq hother)
      hcached hstatus
  · intro model hmodel hskipped hcached
    rw [h.ended_eq hrun hmodel] at hskipped hcached ⊢
    have hterm := Execution.terminal_of_execute hrun (h.mem_planned hmodel)
    cases hst : r.exec.sched.status model.id with
    | passed => exact Or.inl rfl
    | failed => exact Or.inr (Or.inl rfl)
    | blocked => exact Or.inr (Or.inr (Or.inl rfl))
    | cancelled => exact Or.inr (Or.inr (Or.inr rfl))
    | skipped => exact absurd (congrArg some hst) hskipped
    | cached => exact absurd (congrArg some hst) hcached
    | pending | ready | running => simp [hst, ExecutionStatus.isTerminal] at hterm

end Runs

/-! ## A window over an earlier version -/

namespace Sample

def plainOptions : RunOptions where
  environment := none
  concurrency := 2
  runTests := true
  failFast := false

def planned (p : Planning) (events : List Execution.Event) :
    Option (Plan × Execution × Execution.RunResult) :=
  letI := januaryClock
  (p.plan "plan").toOption.bind fun plan =>
    (Runner.apply p.compilation plan plainOptions p.view.name "run-3").toOption.bind fun x =>
      (x.execute opening closing p.store events).map fun r => (plan, x, r)

theorem planned_eq_some {p : Planning} {events : List Execution.Event} {plan : Plan}
    {x : Execution} {r : Execution.RunResult} (h : planned p events = some (plan, x, r)) :
    @Planning.plan p januaryClock "plan" = .ok plan ∧
      Runner.apply p.compilation plan plainOptions p.view.name "run-3" = .ok x ∧
      @Execution.execute x januaryClock opening closing p.store events = some r := by
  obtain ⟨plan', hplan, h⟩ := Option.bind_eq_some_iff.1 h
  obtain ⟨x', hx, h⟩ := Option.bind_eq_some_iff.1 h
  obtain ⟨r', hr, h⟩ := Option.map_eq_some_iff.1 h
  simp only [Prod.mk.injEq] at h
  obtain ⟨rfl, rfl, rfl⟩ := h
  exact ⟨Library.eq_ok_of_toOption hplan, Library.eq_ok_of_toOption hx, hr⟩

def eventsBuilt : List Execution.Event :=
  [.tick "", .tick "", .tick "", .passed resumedModel.id ⟨"", "", "", none, none, ""⟩, .tick "",
    .tick ""]

/-- The window of the last run is of an earlier version: the run adds to it, and passes. -/
theorem eventsBuilt_in_part :
    ∃ plan x r, @Planning.plan (planEvents none) januaryClock "plan" = .ok plan ∧
      Runner.apply (planEvents none).compilation plan plainOptions "trino" "run-3" = .ok x ∧
      @Execution.execute x januaryClock opening closing (planEvents none).store eventsBuilt =
        some r ∧
      r.ended resumedModel.id = some .passed ∧
      (r.exec.info resumedModel.id).map PlannedModel.fullRebuild = some false ∧
      ¬ @RebuildsOtherwise januaryClock (planEvents none) opening r := by
  have hrun : (planned (planEvents none) eventsBuilt).map (fun (_, _, r) =>
      (r.ended resumedModel.id, (r.exec.info resumedModel.id).map PlannedModel.fullRebuild)) =
        some (some .passed, some false) := by
    decide +kernel
  obtain ⟨⟨plan, x, r⟩, hplanned, hfields⟩ := Option.map_eq_some_iff.1 hrun
  obtain ⟨hpassed, hpart⟩ := Prod.mk.inj hfields
  obtain ⟨hplan, hx, hr⟩ := planned_eq_some hplanned
  refine ⟨plan, x, r, hplan, hx, hr, hpassed, hpart, ?_⟩
  intro h
  have hmem : resumedModel ∈ (planEvents none).orderModels := by
    decide +kernel
  let := januaryClock
  rcases h.rebuilt resumedModel hmem (by simp [hpassed]) (by simp [hpassed]) with
    hfailed | ⟨-, hfull⟩
  · rw [hpassed] at hfailed
    cases hfailed
  · rw [hpart] at hfull
    cases hfull

/-- The same run reuses on evidence alone. -/
theorem reusesOnEvidence_eventsBuilt :
    ∃ plan r, @Planning.plan (planEvents none) januaryClock "plan" = .ok plan ∧
      r.ended resumedModel.id = some .passed ∧
      @ReusesOnEvidence januaryClock (planEvents none) plan opening r := by
  have hrun : (planned (planEvents none) eventsBuilt).map (fun (_, _, r) =>
      r.ended resumedModel.id) = some (some .passed) := by
    decide +kernel
  obtain ⟨⟨plan, x, r⟩, hplanned, hpassed⟩ := Option.map_eq_some_iff.1 hrun
  obtain ⟨hplan, hx, hr⟩ := planned_eq_some hplanned
  exact ⟨plan, r, hplan, hpassed, @reusesOnEvidence_of_execute januaryClock _ _ _ hplan _ _ _ _ _
    hx _ _ _ _ _ hr⟩

end Sample

end PhloTransform.Engine
