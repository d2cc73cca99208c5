import PhloTransform.Engine.Attempts

/-!
# Attempts across invocations

A run that is killed is resumed under its run id, and the resumed invocation
writes the records of the run again.  Each invocation reads the attempts it goes
on from when it begins, and it may be killed after any of its writes.

Main results:

- Theorem `Execution.extends_writes`: an invocation that finds no attempts of what
  it takes up, and cuts off no task after an attempt, continues the history.
- Theorem `Ledger.attempts_kept`: such invocations, one after another and each
  killed at any point, keep the history.
-/

namespace PhloTransform.Engine

open Core (Compilation CompiledModel ModelId Relation seedRelation)
open Library (Along StepSystem)

namespace Execution

variable {x : Execution} {opening : Opening} [Rfc3339]
variable {e : Exec} {planned : PlannedSeed}

/-! ## Up to the loop -/

/-- A planned seed that was loaded earlier in the run is carried over. -/
def carriesSeed (x : Execution) (planned : PlannedSeed) : Bool :=
  decide (planned.action ≠ .build) && x.loadedBefore planned.name

def seedKey (x : Execution) (planned : PlannedSeed) : AttemptKey :=
  .seed x.runId planned.name

/-- The record of a seed that is about to be written anew holds no attempts. -/
def SeedUntried (x : Execution) (s : SeedLoads) (planned : PlannedSeed) : Prop :=
  (x.compilation.seed planned.name).isSome = true →
    s.stopped = true ∨ x.carriesSeed planned = false → s.exec.stored (x.seedKey planned) = []

instance (s : SeedLoads) (planned : PlannedSeed) : Decidable (x.SeedUntried s planned) :=
  inferInstanceAs (Decidable (_ → _ → _))

/-- The seed loads, one planned seed at a time. -/
def seedLoop (x : Execution) (opening : Opening) : StepSystem SeedLoads PlannedSeed where
  step s planned := some (x.loadSeed opening s planned)

/-- A part of the seed loads that continues the history and leaves the records of
the models alone. -/
structure SeedKept (x : Execution) (e e' : Exec) : Prop where
  keeps : Exec.Keeps e e'
  models : ∀ id, e'.stored (x.attemptKey id) = e.stored (x.attemptKey id)

section

omit [Rfc3339]

theorem numbered_failures (answer : SeedAnswer) : Numbered answer.failures := by
  intro i hi
  simp [SeedAnswer.failures]

theorem length_failures (answer : SeedAnswer) :
    answer.failures.length = answer.failedAttempts.length := by
  simp [SeedAnswer.failures]

theorem numbered_attempts (answer : SeedAnswer) : Numbered answer.attempts := by
  unfold SeedAnswer.attempts
  split
  · exact numbered_failures answer
  · exact (numbered_failures answer).append (by simp [length_failures])

theorem failures_prefix (answer : SeedAnswer) : answer.failures <+: answer.attempts := by
  unfold SeedAnswer.attempts
  split
  · exact List.prefix_refl _
  · exact List.prefix_append _ _

end

theorem writeSeed_kept (hsome : e.store.isSome = true) {record : SeedRunRecord}
    (hrun : record.runId = x.runId) (hname : record.name = planned.name)
    (hearlier : e.stored (x.seedKey planned) <+: record.attempts)
    (hnumbered : Numbered record.attempts) :
    x.SeedKept e (e.write (.recordSeedRun record)) ∧
      (e.write (.recordSeedRun record)).stored (x.seedKey planned) = record.attempts := by
  have hw : (Write.recordSeedRun record).attempts =
      some (x.seedKey planned, record.attempts) := by
    simp [Write.attempts, seedKey, hrun, hname]
  have hstored := Exec.stored_write hsome hw
  refine ⟨⟨Exec.keeps_write (Exec.extends_of_attempts hw hearlier hnumbered), fun id => ?_⟩, ?_⟩
  · have hne : x.attemptKey id ≠ x.seedKey planned := by simp [attemptKey, seedKey]
    rw [hstored, Function.update_of_ne hne]
  · rw [hstored, Function.update_self]

theorem SeedKept.refl (e : Exec) : x.SeedKept e e :=
  ⟨.of_eq rfl rfl rfl, fun _ => rfl⟩

theorem SeedKept.trans {e e' e'' : Exec} (h : x.SeedKept e e') (h' : x.SeedKept e' e'') :
    x.SeedKept e e'' :=
  ⟨h.keeps.trans h'.keeps, fun id => (h'.models id).trans (h.models id)⟩

/-- The failed attempts of a load are appended one by one. -/
theorem foldl_failedAttempts_kept (planned : PlannedSeed) {failures : List Attempt}
    (hfailures : Numbered failures) (record : FailureCategory × Nat → SeedRunRecord)
    (hrun : ∀ failure, (record failure).runId = x.runId)
    (hname : ∀ failure, (record failure).name = planned.name)
    (hattempts : ∀ failure, (record failure).attempts = failures.take (failure.2 + 1))
    (categories : List FailureCategory) (n : Nat) (hsome : e.store.isSome = true)
    (hstored : e.stored (x.seedKey planned) = failures.take n) :
    x.SeedKept e ((categories.zipIdx n).foldl
        (fun e failure => e.write (.recordSeedRun (record failure))) e) ∧
      ((categories.zipIdx n).foldl
        (fun e failure => e.write (.recordSeedRun (record failure))) e).stored
          (x.seedKey planned) = failures.take (n + categories.length) := by
  induction categories generalizing n e with
  | nil => exact ⟨.refl e, hstored⟩
  | cons category categories ih =>
    obtain ⟨hkept, hwritten⟩ := writeSeed_kept (x := x) hsome (hrun (category, n))
      (hname (category, n))
      (by
        rw [hstored, hattempts]
        exact List.take_prefix_take_left (Nat.le_succ n))
      (by
        rw [hattempts]
        exact hfailures.take _)
    obtain ⟨hkept', hwritten'⟩ := ih (n + 1) (hkept.keeps.isSome.trans hsome)
      (hwritten.trans (hattempts _))
    refine ⟨hkept.trans hkept', hwritten'.trans ?_⟩
    congr 1
    simp only [List.length_cons]
    omega

theorem loadSeed_kept (opening : Opening) {s : SeedLoads} (hsome : s.exec.store.isSome = true)
    (huntried : x.SeedUntried s planned) :
    x.SeedKept s.exec (x.loadSeed opening s planned).exec := by
  unfold loadSeed
  cases hseed : x.compilation.seed planned.name with
  | none => exact .refl _
  | some seed =>
    have hname : seed.name = planned.name := by simpa using List.find?_some hseed
    have hfresh : ∀ {record : SeedRunRecord}, record.runId = x.runId →
        record.name = planned.name → record.attempts = [] →
        s.stopped = true ∨ x.carriesSeed planned = false →
        x.SeedKept s.exec (s.exec.write (.recordSeedRun record)) := by
      intro record hrun hrecord hattempts hreason
      have hnil := huntried (by simp [hseed]) hreason
      exact (writeSeed_kept hsome hrun hrecord (by rw [hnil]; exact List.nil_prefix)
        (by rw [hattempts]; exact numbered_nil)).1
    simp only
    split
    · next hstopped => exact hfresh rfl rfl rfl (Or.inl hstopped)
    · next hopen =>
        split
        · next hcarried =>
            cases hprior : x.prior.seeds seed.name with
            | none =>
              refine hfresh rfl rfl rfl (Or.inr ?_)
              simp [carriesSeed, loadedBefore, ← hname, hprior]
            | some record =>
              by_cases hpassed : record.status = .passed
              · simp only [hpassed, if_true]
                exact .refl _
              · simp only [hpassed, if_false]
                refine hfresh rfl rfl rfl (Or.inr ?_)
                simp [carriesSeed, loadedBefore, ← hname, hprior, hpassed]
        · next hbuild =>
            have hcarries : x.carriesSeed planned = false := by
              simp only [ne_eq, Decidable.not_not] at hbuild
              simp [carriesSeed, hbuild]
            have hnil := huntried (by simp [hseed]) (Or.inr hcarries)
            set answer := opening.seeds planned.name
            simp only [runSeed, SeedLoads.report]
            obtain ⟨hfailures, hstored⟩ := foldl_failedAttempts_kept (x := x)
              planned (numbered_failures answer)
              (fun failure => SeedResult.record x.runId answer.startedAt answer.finishedAt
                { seed := planned.name
                  target := (seedRelation seed x.compilation.defaults.catalog
                    x.defaultSchema x.adapterName).display
                  status := .running
                  attempts := answer.failures.take (failure.2 + 1)
                  failure := some failure.1 })
              (fun _ => rfl) (fun _ => rfl) (fun _ => rfl) answer.failedAttempts 0 hsome
              (hnil.trans (List.take_zero ..).symm)
            refine hfailures.trans (writeSeed_kept (hfailures.keeps.isSome.trans hsome)
              (by split <;> rfl) (by split <;> rfl) ?_ ?_).1
            · rw [hstored]
              have hall : answer.failures.take (0 + answer.failedAttempts.length) =
                  answer.failures := by
                rw [Nat.zero_add, ← length_failures, List.take_length]
              rw [hall]
              split <;> exact failures_prefix answer
            · split <;> exact numbered_attempts answer

def beforeSeeds (x : Execution) (opening : Opening) (store : Option Store) : SeedLoads where
  exec := x.openRun opening store
  results := []
  cancelled := false
  failFast := false

theorem loadSeeds_kept {store : Store}
    (heach : (x.seedLoop opening).EachStep x.SeedUntried (x.beforeSeeds opening (some store))
      x.plan.seeds) :
    x.SeedKept (x.fresh (some store)) (x.loadSeeds opening (some store)).exec := by
  have hopen : x.SeedKept (x.fresh (some store)) (x.openRun opening (some store)) := by
    unfold openRun
    split
    · obtain ⟨hkeeps, hstored⟩ := Exec.write_keeps_none (w := .reopenRun x.runId) rfl
        (x.fresh (some store))
      exact ⟨hkeeps, fun id => by rw [hstored]⟩
    · obtain ⟨hkeeps, hstored⟩ := Exec.write_keeps_none (w := .startRun _ x.storedPlan) rfl
        (x.fresh (some store))
      exact ⟨hkeeps, fun id => by rw [hstored]⟩
  have hfold : ∀ (seeds : List PlannedSeed) (s : SeedLoads), s.exec.store.isSome = true →
      (x.seedLoop opening).EachStep x.SeedUntried s seeds →
      x.SeedKept s.exec (seeds.foldl (x.loadSeed opening) s).exec := by
    intro seeds
    induction seeds with
    | nil => exact fun s _ _ => .refl s.exec
    | cons planned seeds ih =>
      rintro s hsome ⟨huntried, hrest⟩
      have hkept := loadSeed_kept opening hsome huntried
      exact hkept.trans (ih _ (hkept.keeps.isSome.trans hsome) (hrest _ rfl))
  exact hopen.trans (hfold x.plan.seeds (x.beforeSeeds opening (some store))
    (hopen.keeps.isSome.trans rfl) heach)

variable (x) in
/-- What holds of the attempts before the loop: no task has made any. -/
structure EntryAttempted (e : Exec) : Prop where
  isSome : e.store.isSome = true
  attempts : e.attempts = fun _ => []
  opened : ∀ id ∈ x.schedule.planned, (e.sched.status id).isTerminal = false →
    x.priorAttempts id = [] ∧ e.stored (x.attemptKey id) = []

omit [Rfc3339] in
theorem EntryAttempted.attempted (h : x.EntryAttempted e) : x.Attempted e where
  isSome := h.isSome
  opened := by
    intro id hid hopen
    obtain ⟨hprior, hstored⟩ := h.opened id hid hopen
    exact ⟨hprior, hstored.trans (congrFun h.attempts id).symm⟩
  pending := fun id _ _ => congrFun h.attempts id
  numbered := by
    intro id
    rw [h.attempts]
    exact numbered_nil

/-- A part of the prelude that changes no record's attempts. -/
theorem EntryAttempted.of_keeps {e' : Exec} (h : x.EntryAttempted e) (hkeeps : Exec.Keeps e e')
    (hstored : e'.stored = e.stored)
    (hopen : ∀ id, (e'.sched.status id).isTerminal = false → (e.sched.status id).isTerminal = false)
    : x.EntryAttempted e' where
  isSome := hkeeps.isSome.trans h.isSome
  attempts := hkeeps.attempts.trans h.attempts
  opened := by
    intro id hid hstatus
    rw [hstored]
    exact h.opened id hid (hopen id hstatus)

theorem carryOver_keeps (opening : Opening) (e : Exec) (model : CompiledModel) :
    Exec.Keeps e (x.carryOver opening e model) ∧
      (x.carryOver opening e model).stored = e.stored := by
  unfold carryOver
  split
  · next reuse _ =>
      obtain ⟨hrecorded, hsame⟩ := Exec.write_keeps_none
        (w := .recordMaterialized (x.materializedRecord model (some reuse.outputIdentity)
          reuse.runId reuse.materializedAt)) rfl e
      unfold adopt
      simp only
      split
      · split
        · next watermark _ =>
            obtain ⟨hwatermark, hsame'⟩ := Exec.write_keeps_none
              (w := .setWatermark model.id.logicalName x.options.environment watermark x.runId
                (opening.now model.id)) rfl
              (e.write (.recordMaterialized (x.materializedRecord model
                (some reuse.outputIdentity) reuse.runId reuse.materializedAt)))
            exact ⟨hrecorded.trans hwatermark, hsame'.trans hsame⟩
        · exact ⟨hrecorded, hsame⟩
      · exact ⟨hrecorded, hsame⟩
  · exact ⟨.of_eq rfl rfl rfl, rfl⟩

theorem EntryAttempted.settleOne {e : Exec} (h : x.EntryAttempted e) {id : ModelId}
    (hid : id ∈ x.schedule.planned) :
    Exec.Keeps e (x.settleOne opening e id) ∧ x.EntryAttempted (x.settleOne opening e id) := by
  have hquiet : ∀ e' : Exec, e'.store = e.store → e'.log = e.log → e'.attempts = e.attempts →
      e'.sched = e.sched → Exec.Keeps e e' ∧ x.EntryAttempted e' := by
    intro e' hstore hlog hattempts hsched
    have hkeeps : Exec.Keeps e e' := .of_eq hstore hlog hattempts
    refine ⟨hkeeps, h.of_keeps hkeeps ?_ fun id hopen => hsched ▸ hopen⟩
    funext key
    simp only [Exec.stored, hstore]
  unfold Execution.settleOne
  split
  · next hpending =>
      split
      · next status model hsettled hmodel =>
          obtain rfl := Compilation.id_of_model hmodel
          have hnil := (h.opened model.id hid (by rw [hpending]; rfl)).2
          obtain ⟨hcarried, hsame⟩ := carryOver_keeps (x := x) opening e model
          let moved : Exec :=
            { x.carryOver opening e model with
              sched := e.sched.satisfy x.schedule model.id status }
          obtain ⟨hreport, hsame'⟩ := report_keeps_nil (x := x) (e := moved)
            (hcarried.isSome.trans h.isSome) (settledResult opening e model status) rfl rfl
            ((congrFun hsame (x.attemptKey model.id)).trans hnil)
          have hmoved : Exec.Keeps e moved := hcarried.trans (.of_eq rfl rfl rfl)
          have hkeeps := hmoved.trans hreport
          refine ⟨hkeeps, h.of_keeps hkeeps (hsame'.trans hsame) fun j hopen => ?_⟩
          rw [Exec.report_sched] at hopen
          by_cases hne : j = model.id
          · rw [hne, hpending]
            rfl
          · simpa [moved, Sched.satisfy, Sched.finish, hne] using hopen
      · split
        · split
          · exact hquiet _ rfl rfl rfl rfl
          · exact hquiet _ rfl rfl rfl rfl
        · exact hquiet _ rfl rfl rfl rfl
  · exact hquiet _ rfl rfl rfl rfl

theorem EntryAttempted.blockSeedReaderOne {e : Exec} (h : x.EntryAttempted e)
    (failed : List String) {id : ModelId} (hid : id ∈ x.schedule.planned) :
    Exec.Keeps e (x.blockSeedReaderOne failed e id) ∧
      x.EntryAttempted (x.blockSeedReaderOne failed e id) := by
  unfold Execution.blockSeedReaderOne
  split
  · next hblock =>
      have hpending : e.sched.status id = .pending := by
        simp only [Bool.and_eq_true, decide_eq_true_eq] at hblock
        exact hblock.1
      let moved : Exec := { e with sched := Sched.failBelow x.schedule e.sched id .blocked }
      have hmoved : Exec.Keeps e moved := .of_eq rfl rfl rfl
      obtain ⟨hkeeps, hstored⟩ := reportAll_keeps (x := x) (e := moved) .blocked .dependency
        (id :: Sched.newlyBlocked x.schedule e.sched id .blocked) h.isSome fun j hj => by
          rcases List.mem_cons.1 hj with rfl | hj
          · exact (h.opened j hid (by rw [hpending]; rfl)).2
          · exact (h.opened j (Sched.exists_dependency_of_mem_newlyBlocked hj).1
              (Sched.open_of_mem_newlyBlocked rfl hj).2).2
      have hall := hmoved.trans hkeeps
      refine ⟨hall, h.of_keeps hall hstored fun j hopen => ?_⟩
      cases hterm : (e.sched.status j).isTerminal with
      | false => rfl
      | true =>
        have hblocked :
            ((Sched.failBelow x.schedule e.sched id .blocked).status j).isTerminal = true :=
          Sched.isTerminal_failBelow rfl hterm
        simp only [reportBlocked_sched] at hopen
        exact absurd (hblocked.symm.trans hopen) (by decide)
  · exact ⟨.of_eq rfl rfl rfl, h⟩

theorem EntryAttempted.foldl {f : Exec → ModelId → Exec}
    (hf : ∀ e, x.EntryAttempted e → ∀ id ∈ x.schedule.planned,
      Exec.Keeps e (f e id) ∧ x.EntryAttempted (f e id))
    {ids : List ModelId} (hids : ∀ id ∈ ids, id ∈ x.schedule.planned) {e : Exec}
    (h : x.EntryAttempted e) : Exec.Keeps e (ids.foldl f e) ∧ x.EntryAttempted (ids.foldl f e) := by
  induction ids generalizing e with
  | nil => exact ⟨.of_eq rfl rfl rfl, h⟩
  | cons id ids ih =>
    obtain ⟨hkeeps, h'⟩ := hf e h id (hids id (by simp))
    obtain ⟨hkeeps', h''⟩ := ih (fun j hj => hids j (by simp [hj])) h'
    exact ⟨hkeeps.trans hkeeps', h''⟩

omit [Rfc3339] in
/-- Carrying models over from an earlier invocation writes nothing. -/
theorem foldl_reuseOne_part (ids : List ModelId) (e : Exec) :
    (ids.foldl x.reuseOne e).store = e.store ∧ (ids.foldl x.reuseOne e).log = e.log ∧
      (ids.foldl x.reuseOne e).attempts = e.attempts := by
  have hone : ∀ (e : Exec) (id : ModelId), (x.reuseOne e id).store = e.store ∧
      (x.reuseOne e id).log = e.log ∧ (x.reuseOne e id).attempts = e.attempts := by
    intro e id
    unfold reuseOne
    split
    · split <;> exact ⟨rfl, rfl, rfl⟩
    · exact ⟨rfl, rfl, rfl⟩
  exact ⟨Exec.foldl_part Exec.store (fun e id => (hone e id).1) ids e,
    Exec.foldl_part Exec.log (fun e id => (hone e id).2.1) ids e,
    Exec.foldl_part Exec.attempts (fun e id => (hone e id).2.2) ids e⟩

/-- An invocation finds no attempts of what it takes up: no planned model that it
does not carry over and no seed record that it writes anew has any. -/
structure TakesUpUntried (x : Execution) (opening : Opening) (store : Store) : Prop where
  models : ∀ id ∈ x.schedule.planned, x.reused id = none →
    store.attempts (x.attemptKey id) = []
  seeds : (x.seedLoop opening).EachStep x.SeedUntried (x.beforeSeeds opening (some store))
    x.plan.seeds

omit [Rfc3339] in
instance {clock : Rfc3339} (x : Execution) (opening : Opening) (store : Store) :
    Decidable (x.TakesUpUntried opening store) :=
  decidable_of_iff _ ⟨fun h => ⟨h.1, h.2⟩, fun h => And.intro h.models h.seeds⟩

/-- The attempts an invocation goes on from are those in the store, or none. -/
def PriorFrom (x : Execution) (store : Store) : Prop :=
  ∀ id, x.priorAttempts id = [] ∨ x.priorAttempts id = store.attempts (x.attemptKey id)

theorem enter_attempted {store : Store} (hprior : x.PriorFrom store)
    (huntried : x.TakesUpUntried opening store) :
    Exec.Logs (x.fresh (some store)) (x.enter opening (some store)) ∧
      x.Attempted (x.enter opening (some store)) := by
  have hloads := loadSeeds_kept huntried.seeds
  let loads := x.loadSeeds opening (some store)
  let opened : Exec :=
    { loads.exec with
      sched := Sched.initial x.schedule loads.cancelled loads.cancelled loads.failFast }
  let reused := x.schedule.planned.foldl x.reuseOne opened
  have hopened : Exec.Keeps (x.fresh (some store)) opened :=
    hloads.keeps.trans (.of_eq rfl rfl rfl)
  obtain ⟨hstore, hlog, hattempts⟩ := foldl_reuseOne_part x.schedule.planned opened
  have hreused : Exec.Keeps (x.fresh (some store)) reused :=
    hopened.trans (.of_eq hstore hlog hattempts)
  have hentry : x.EntryAttempted reused := by
    refine ⟨hreused.isSome.trans rfl, hreused.attempts, fun id hid hopen => ?_⟩
    have hnone : x.reused id = none := by
      have hsched : reused.sched = opened.sched.settleAll x.schedule x.reused :=
        Exec.foldl_sched (fun e id hid => reuseOne_sched e hid) opened
      have hpending : opened.sched.status id = .pending := rfl
      rw [hsched, Sched.settleAll_status, if_pos ⟨hid, hpending⟩] at hopen
      cases hout : x.reused id with
      | none => rfl
      | some status =>
        have hvalid : (x.prelude opening none).Valid := prelude_valid none
        rcases hvalid.reused id status hout with rfl | rfl <;>
          simp [hout, ExecutionStatus.isTerminal] at hopen
    have hnil := huntried.models id hid hnone
    refine ⟨(hprior id).elim (fun h => h) fun h => h.trans hnil, ?_⟩
    have hsame : reused.stored (x.attemptKey id) = loads.exec.stored (x.attemptKey id) := by
      simp only [Exec.stored, reused, hstore]
      rfl
    rw [hsame, hloads.models id]
    exact hnil
  obtain ⟨hsettled, hentry⟩ := EntryAttempted.foldl (f := x.settleOne opening)
    (fun e h id hid => h.settleOne hid) (fun id hid => hid) hentry
  obtain ⟨hblocked, hentry⟩ := EntryAttempted.foldl
    (f := x.blockSeedReaderOne (failedSeedTargets loads.results))
    (fun e h id hid => h.blockSeedReaderOne _ hid) (fun id hid => hid) hentry
  let blocked := x.schedule.planned.foldl
    (x.blockSeedReaderOne (failedSeedTargets loads.results))
    (x.schedule.planned.foldl (x.settleOne opening) reused)
  have hready : Exec.Keeps blocked { blocked with
      sched := blocked.sched.enqueueReady x.schedule } := .of_eq rfl rfl rfl
  exact ⟨(((hreused.trans hsettled).trans hblocked).trans hready).logs,
    (hentry.of_keeps hready rfl fun id hopen => hopen).attempted⟩

/-! ## Whole invocations -/

/-- The writes of an invocation that gets as far as these events. -/
def writes (x : Execution) (opening : Opening) (closing : Closing) (store : Store)
    (events : List Event) : Option (List Write) :=
  (x.loop.run (x.enter opening (some store)) events).map fun e =>
    if e.sched.phase = .done then
      (x.close closing e (x.loadSeeds opening (some store)).results).exec.log
    else e.log

/-- An invocation that finds no attempts of what it takes up, and cuts off no task
with a failed attempt, keeps the history. -/
theorem extends_writes {closing : Closing} {store : Store} {events : List Event}
    {ws : List Write} (hprior : x.PriorFrom store) (huntried : x.TakesUpUntried opening store)
    (heach : x.loop.EachStep x.SweepsUntried (x.enter opening (some store)) events)
    (h : x.writes opening closing store events = some ws) :
    Along Store.write Store.Extends store ws := by
  obtain ⟨e, hrun, rfl⟩ := Option.map_eq_some_iff.1 h
  obtain ⟨hentered, hattempted⟩ := enter_attempted hprior huntried
  have hlooped := hattempted.run (reached_of_run (StepSystem.run_nil x.loop _)) heach hrun
  have hall := hentered.trans hlooped
  have hlog : ∀ {e : Exec}, Exec.Logs (x.fresh (some store)) e →
      Along Store.write Store.Extends store e.log := by
    intro e hlogs
    obtain ⟨ws, hws, -, hlog⟩ := hlogs store rfl
    have hlog : e.log = ws := hlog
    exact hlog ▸ hws
  split
  · exact hlog (hall.trans ((emits_close x closing e _).logs fun w => Write.attempts_of_isClosing))
  · exact hlog hall

end Execution

/-! ## Invocations one after another -/

/-- A call of the runner. -/
inductive Invocation where
  | apply (compilation : Compilation) (plan : Plan) (options : RunOptions)
      (adapterName runId : String)
  /-- A run is resumed; `none` for the seeds is a failed probe. -/
  | resume (compilation : Compilation) (view : AdapterView)
      (seedsExist : Option (Relation → Bool)) (options : RunOptions) (runId : String)

section Invocations

variable [Rfc3339]

/-- What the call executes on a store; a run id is not started twice. -/
def Invocation.execution (store : Store) : Invocation → Option Execution
  | .apply compilation plan options adapterName runId =>
    if (store.run runId).isSome then none
    else (Runner.apply compilation plan options adapterName runId).toOption
  | .resume compilation view seedsExist options runId =>
    (Runner.resume store compilation view seedsExist options runId).toOption

/-- An invocation goes on from the attempts in the store it begins with. -/
theorem Invocation.priorFrom {store : Store} {invocation : Invocation} {x : Execution}
    (h : invocation.execution store = some x) : x.PriorFrom store := by
  intro id
  cases invocation with
  | apply compilation plan options adapterName runId =>
    simp only [execution] at h
    split at h
    · cases h
    · cases happly : Runner.apply compilation plan options adapterName runId with
      | error error => simp [happly, Except.toOption] at h
      | ok applied =>
        obtain rfl : applied = x := by simpa [happly, Except.toOption] using h
        obtain ⟨-, -, -, -, -, -, hprior, -⟩ := Runner.apply_eq_ok happly
        left
        simp [Execution.priorAttempts, hprior, PriorRun.none]
  | resume compilation view seedsExist options runId =>
    simp only [execution] at h
    cases hresume : Runner.resume store compilation view seedsExist options runId with
    | error error => simp [hresume, Except.toOption] at h
    | ok resumed =>
      obtain rfl : resumed = x := by simpa [hresume, Except.toOption] using h
      obtain ⟨-, -, -, -, hrun, hprior⟩ := Runner.follows_of_resume hresume
      right
      simp [Execution.priorAttempts, hprior, Runner.priorRun, Store.attempts,
        Execution.attemptKey, hrun]

/-- A call with its answers and events. -/
structure RunnerCall where
  invocation : Invocation
  opening : Opening
  closing : Closing
  events : List Execution.Event
  landed : Nat

/-- A store and everything written to it. -/
structure Ledger where
  start : Store
  writes : List Write

def Ledger.store (l : Ledger) : Store :=
  l.writes.foldl Store.write l.start

/-- Calls of the runner, each killed after some of its writes. -/
def calls : StepSystem Ledger RunnerCall where
  step l call :=
    (call.invocation.execution l.store).bind fun x =>
      (x.writes call.opening call.closing l.store call.events).map fun ws =>
        { l with writes := l.writes ++ ws.take call.landed }

namespace Ledger

/-- Between any two points every list of attempts grows at its end, and at every
point every list is numbered from one. -/
def AttemptsKept (l : Ledger) : Prop :=
  ∀ earlier later rest, l.writes = earlier ++ later ++ rest →
    (earlier.foldl Store.write l.start).AttemptsGrow
        ((earlier ++ later).foldl Store.write l.start) ∧
      ((earlier ++ later).foldl Store.write l.start).AttemptsNumbered

/-- A call takes up only what no attempt has been made of, and its sweeps find no
task that was cut off after an attempt. -/
def CallUntried (l : Ledger) (call : RunnerCall) : Prop :=
  match call.invocation.execution l.store with
  | some x => x.TakesUpUntried call.opening l.store ∧
      x.loop.EachStep x.SweepsUntried (x.enter call.opening (some l.store)) call.events
  | none => True

omit [Rfc3339] in
instance {clock : Rfc3339} (l : Ledger) (call : RunnerCall) : Decidable (l.CallUntried call) := by
  unfold CallUntried
  split <;> infer_instance

/-- In every sequence of calls that take up only what no attempt has been made of
and cut off no task after an attempt, each killed after any of its writes, no
attempt is ever lost. -/
theorem attempts_kept {start : Store} {cs : List RunnerCall} {l : Ledger}
    (hstart : start.AttemptsNumbered) (heach : calls.EachStep CallUntried ⟨start, []⟩ cs)
    (hrun : calls.run ⟨start, []⟩ cs = some l) : l.AttemptsKept := by
  have hbegin : (⟨start, []⟩ : Ledger).start = start ∧
      Along Store.write Store.Extends start (⟨start, []⟩ : Ledger).writes := ⟨rfl, trivial⟩
  have hall : l.start = start ∧ Along Store.write Store.Extends start l.writes := by
    refine StepSystem.EachStep.invariant calls (P := fun l => l.start = start ∧
      Along Store.write Store.Extends start l.writes) ?_ hbegin heach hrun
    rintro l call l' ⟨rfl, halong⟩ huntried hstep
    obtain ⟨x, hx, hwrites⟩ := Option.bind_eq_some_iff.1 hstep
    obtain ⟨ws, hws, rfl⟩ := Option.map_eq_some_iff.1 hwrites
    simp only [CallUntried, hx] at huntried
    have hextends := Execution.extends_writes (Invocation.priorFrom hx) huntried.1 huntried.2 hws
    exact ⟨rfl, Along.append.2 ⟨halong, hextends.take call.landed⟩⟩
  obtain ⟨rfl, halong⟩ := hall
  intro earlier later rest hsplit
  rw [hsplit] at halong
  refine ⟨halong.between Store.AttemptsGrow.refl (fun _ _ _ => Store.AttemptsGrow.trans)
    fun _ _ => Store.Extends.grow, ?_⟩
  have hnumbered := Along.rel
    (R := fun s t => s.AttemptsNumbered → t.AttemptsNumbered)
    (fun _ h => h) (fun _ _ _ h h' hs => h' (h hs)) (fun _ _ h => Store.Extends.numbered h)
    (Along.append.1 halong).1
  exact hnumbered hstart

end Ledger

end Invocations

/-! ## Small histories -/

namespace Sample

def rawPlan : Plan where
  id := "plan"
  environment := none
  adapter := "duckdb"
  blocked := false
  seeds := []
  models := [row Core.Sample.rawModel .build]
  models_nodup := by decide
  tests := []

def rawOptions : RunOptions where
  environment := none
  concurrency := 2
  runTests := true
  failFast := false

def applyRaw (events : List Execution.Event) (landed : Nat) : RunnerCall where
  invocation := .apply Core.Sample.chain rawPlan rawOptions "duckdb" "run"
  opening := opening
  closing := closing
  events := events
  landed := landed

def resumeRaw (events : List Execution.Event) (landed : Nat) : RunnerCall where
  invocation := .resume Core.Sample.chain (planning Core.Sample.chain []).view
    (some fun _ => true) rawOptions "run"
  opening := opening
  closing := closing
  events := events
  landed := landed

def rawAttempt : Attempt where
  attempt := 1
  startedAt := "2026-01-01T00:00:00.000000000Z"
  failure := some .timeout

def started : List Execution.Event :=
  [.tick "", .tick ""]

def backingOff : List Execution.Event :=
  started ++ [.attemptFailed Core.Sample.rawModel.id "" rawAttempt.startedAt .timeout]

def rawKey : AttemptKey :=
  .model "run" Core.Sample.rawModel.id.logicalName

end Sample

namespace Ledger

/-- A run is killed before its first attempt has ended, and resumed. -/
theorem attempts_kept_started :
    ∃ l, (@calls januaryClock).run ⟨Store.empty, []⟩
        [Sample.applyRaw Sample.started 2, Sample.resumeRaw Sample.backingOff 3] = some l ∧
      @AttemptsKept januaryClock l ∧
      (@store januaryClock l).attempts Sample.rawKey = [Sample.rawAttempt] := by
  have heach : (@calls januaryClock).EachStep (@CallUntried januaryClock) ⟨Store.empty, []⟩
      [Sample.applyRaw Sample.started 2, Sample.resumeRaw Sample.backingOff 3] := by
    decide +kernel
  let _ := januaryClock
  have hrun : (calls.run ⟨Store.empty, []⟩
      [Sample.applyRaw Sample.started 2, Sample.resumeRaw Sample.backingOff 3]).map
        (fun l => l.store.attempts Sample.rawKey) = some [Sample.rawAttempt] := by
    decide +kernel
  obtain ⟨l, hl, hattempts⟩ := Option.map_eq_some_iff.1 hrun
  have hempty : Store.empty.AttemptsNumbered := by
    rintro (_ | _) <;> exact numbered_nil
  exact ⟨l, hl, attempts_kept hempty heach hl, hattempts⟩

/-- A run is killed while a model waits for its second attempt; resuming the run
starts the model with an empty list. -/
theorem attempts_lost_on_resume :
    ∃ l, (@calls januaryClock).run ⟨Store.empty, []⟩
        [Sample.applyRaw Sample.backingOff 3, Sample.resumeRaw Sample.started 2] = some l ∧
      ¬ @AttemptsKept januaryClock l := by
  let _ := januaryClock
  have hrun : (calls.run ⟨Store.empty, []⟩
      [Sample.applyRaw Sample.backingOff 3, Sample.resumeRaw Sample.started 2]).map
        (fun l => (((l.writes.take 3).foldl Store.write l.start).attempts Sample.rawKey,
          l.store.attempts Sample.rawKey)) = some ([Sample.rawAttempt], []) := by
    decide +kernel
  obtain ⟨l, hl, hattempts⟩ := Option.map_eq_some_iff.1 hrun
  obtain ⟨hbefore, hafter⟩ := Prod.mk.inj hattempts
  refine ⟨l, hl, fun hkept => ?_⟩
  have hgrow := (hkept (l.writes.take 3) (l.writes.drop 3) [] (by simp)).1 Sample.rawKey
  have hstore : ((l.writes.take 3 ++ l.writes.drop 3).foldl Store.write l.start).attempts
      Sample.rawKey = [] := by
    rw [List.take_append_drop]
    exact hafter
  rw [hbefore, hstore] at hgrow
  exact absurd (List.prefix_nil.1 hgrow) (by simp)

end Ledger

end PhloTransform.Engine
