import PhloTransform.Engine.CompletionPaths
import PhloTransform.Library.WriteLog

/-!
# The attempt history of a run

A run keeps the attempts of every model build and seed load in the record of the
node, and each write replaces the whole record.  The history is kept when every
write continues the list it replaces.

Main results:

- Theorem `Store.attempts_write`: what a write does to the attempts in the store.
- Theorem `Execution.Attempted.run`: the loop continues the history as long as its
  sweep finds no task that was cut off after an attempt.
-/

namespace PhloTransform.Engine

open Core (Compilation CompiledModel ModelId)
open Library (Along StepSystem)

/-! ## Attempts in the store -/

/-- The records that keep attempts. -/
inductive AttemptKey where
  | model (runId modelId : String)
  | seed (runId name : String)
deriving DecidableEq

/-- The attempts of a record; a record that is not there has none. -/
def Store.attempts (store : Store) : AttemptKey → List Attempt
  | .model runId modelId =>
    ((store.modelRun runId modelId).map ModelRunRecord.attempts).getD []
  | .seed runId name => ((store.seedRun runId name).map SeedRunRecord.attempts).getD []

/-- The list of attempts that a write puts in the place of the stored one. -/
def Write.attempts : Write → Option (AttemptKey × List Attempt)
  | .recordModel record => some (.model record.runId record.modelId, record.attempts)
  | .recordSeedRun record => some (.seed record.runId record.name, record.attempts)
  | _ => none

theorem Write.attempts_of_isClosing {w : Write} (h : w.isClosing) : w.attempts = none := by
  cases w with
  | recordTest _ | recordMaterialized _ | recordSeed _ | finishRun _ _ _ _ => rfl
  | _ => exact h.elim

/-- The attempts are numbered from one, without gaps or repeats. -/
def Numbered (attempts : List Attempt) : Prop :=
  ∀ i (h : i < attempts.length), (attempts[i]).attempt = i + 1

/-- A write continues the list of attempts that it replaces. -/
def Store.Extends (store : Store) (w : Write) : Prop :=
  ∀ key attempts, w.attempts = some (key, attempts) →
    store.attempts key <+: attempts ∧ Numbered attempts

/-- Every list of attempts in the store is numbered. -/
def Store.AttemptsNumbered (store : Store) : Prop :=
  ∀ key, Numbered (store.attempts key)

/-- Every list of attempts is the beginning of the later one. -/
def Store.AttemptsGrow (store later : Store) : Prop :=
  ∀ key, store.attempts key <+: later.attempts key

theorem numbered_nil : Numbered [] := by
  intro i h
  cases h

theorem Numbered.take {attempts : List Attempt} (h : Numbered attempts) (n : Nat) :
    Numbered (attempts.take n) := by
  intro i hi
  rw [List.getElem_take]
  exact h i (by simp only [List.length_take] at hi; omega)

theorem Numbered.append {attempts : List Attempt} (h : Numbered attempts) {last : Attempt}
    (hlast : last.attempt = attempts.length + 1) : Numbered (attempts ++ [last]) := by
  intro i hi
  by_cases hold : i < attempts.length
  · rw [List.getElem_append_left hold]
    exact h i hold
  · have hnew : i = attempts.length := by
      simp only [List.length_append, List.length_singleton] at hi
      omega
    subst hnew
    simpa using hlast

namespace Store

variable {store : Store}

theorem AttemptsGrow.refl (store : Store) : store.AttemptsGrow store :=
  fun _ => List.prefix_refl _

theorem AttemptsGrow.trans {store later last : Store} (h : store.AttemptsGrow later)
    (h' : later.AttemptsGrow last) : store.AttemptsGrow last :=
  fun key => (h key).trans (h' key)

theorem extends_of_none {w : Write} (h : w.attempts = none) : store.Extends w := by
  intro key attempts hw
  rw [h] at hw
  cases hw

variable [Rfc3339]

theorem attempts_write (store : Store) (w : Write) :
    (store.write w).attempts =
      match w.attempts with
      | some (key, attempts) => Function.update store.attempts key attempts
      | none => store.attempts := by
  cases w with
  | startRun run plan =>
    funext key
    simp only [write, startRun, Write.attempts]
    split <;> rfl
  | recordModel record =>
    funext key
    cases key with
    | seed runId name => simp [write, Write.attempts, attempts, seedRun, recordModel]
    | model runId modelId =>
      by_cases hkey : (runId, modelId) = record.key
      · obtain ⟨rfl, rfl⟩ := Prod.mk.inj hkey
        simp [write, Write.attempts, attempts, modelRun, recordModel,
          ModelRunRecord.key, Library.Table.get?_put]
      · have hne : record.key ≠ (runId, modelId) := fun h => hkey h.symm
        simp only [ModelRunRecord.key, ne_eq, Prod.mk.injEq, not_and] at hne
        have hother : AttemptKey.model runId modelId ≠
            .model record.runId record.modelId := fun h => by
          cases h
          exact hkey rfl
        simp only [write, Write.attempts, Function.update_of_ne hother]
        simp only [attempts, modelRun, recordModel, Library.Table.get?_put]
        rw [if_neg fun h => hkey h.symm]
  | recordSeedRun record =>
    funext key
    cases key with
    | model runId modelId => simp [write, Write.attempts, attempts, modelRun, recordSeedRun]
    | seed runId name =>
      by_cases hkey : (runId, name) = record.key
      · obtain ⟨rfl, rfl⟩ := Prod.mk.inj hkey
        simp [write, Write.attempts, attempts, seedRun, recordSeedRun,
          SeedRunRecord.key, Library.Table.get?_put]
      · have hother : AttemptKey.seed runId name ≠ .seed record.runId record.name :=
          fun h => by
            cases h
            exact hkey rfl
        simp only [write, Write.attempts, Function.update_of_ne hother]
        simp only [attempts, seedRun, recordSeedRun, Library.Table.get?_put]
        rw [if_neg fun h => hkey h.symm]
  | reopenRun _ | recordTest _ | recordMaterialized _ | recordSeed _
  | setWatermark _ _ _ _ _ | finishRun _ _ _ _ => rfl

theorem Extends.grow {w : Write} (h : store.Extends w) : store.AttemptsGrow (store.write w) := by
  intro key
  rw [attempts_write]
  cases hw : w.attempts with
  | none => exact List.prefix_refl _
  | some replaced =>
    by_cases hkey : key = replaced.1
    · subst hkey
      simpa using (h _ _ hw).1
    · simp [hkey]

theorem Extends.numbered {w : Write} (h : store.Extends w) (hstore : store.AttemptsNumbered) :
    (store.write w).AttemptsNumbered := by
  intro key
  rw [attempts_write]
  cases hw : w.attempts with
  | none => exact hstore key
  | some replaced =>
    by_cases hkey : key = replaced.1
    · subst hkey
      simpa using (h _ _ hw).2
    · simpa [hkey] using hstore key

end Store

/-! ## Attempts in a run -/

namespace Exec

/-- The attempts of a record in the store of a run. -/
def stored (e : Exec) (key : AttemptKey) : List Attempt :=
  (e.store.map fun store => store.attempts key).getD []

/-- A write continues the list it replaces in the store of a run. -/
def Extends (e : Exec) (w : Write) : Prop :=
  ∀ key attempts, w.attempts = some (key, attempts) →
    e.stored key <+: attempts ∧ Numbered attempts

section Logs

variable [Rfc3339]
variable {e e' : Exec} {w : Write}
variable {P : Write → Prop} {key : AttemptKey}

/-- `e'` comes from `e` by logged writes that each continue what they replace. -/
def Logs (e e' : Exec) : Prop :=
  ∀ store, e.store = some store → ∃ ws, Along Store.write Store.Extends store ws ∧
    e'.store = some (ws.foldl Store.write store) ∧ e'.log = e.log ++ ws

theorem Logs.of_eq (hstore : e'.store = e.store) (hlog : e'.log = e.log) : Logs e e' :=
  fun store h => ⟨[], trivial, hstore.trans h, by simp [hlog]⟩

theorem Logs.trans {e'' : Exec} (h : Logs e e') (h' : Logs e' e'') : Logs e e'' := by
  intro store hstore
  obtain ⟨ws, hws, hstore', hlog⟩ := h store hstore
  obtain ⟨ws', hws', hstore'', hlog'⟩ := h' _ hstore'
  refine ⟨ws ++ ws', Along.append.2 ⟨hws, hws'⟩, ?_, ?_⟩
  · rw [hstore'', List.foldl_append]
  · rw [hlog', hlog, List.append_assoc]

theorem logs_write (h : e.Extends w) : Logs e (e.write w) := by
  intro store hstore
  refine ⟨[w], ⟨?_, trivial⟩, by simp [write_store, hstore], by simp [write, hstore]⟩
  intro key attempts hw
  simpa [stored, hstore] using h key attempts hw

theorem Emits.logs (hP : ∀ w, P w → w.attempts = none) (h : Emits P e e') : Logs e e' := by
  intro store hstore
  obtain ⟨ws, hws, hstore', hlog⟩ := h
  refine ⟨ws, ?_, by rw [hstore', hstore]; rfl, hlog (by simp [hstore])⟩
  clear hstore' hlog hstore
  induction ws generalizing store with
  | nil => trivial
  | cons w ws ih =>
    exact ⟨Store.extends_of_none (hP w (hws w (by simp))),
      ih _ fun v hv => hws v (by simp [hv])⟩

theorem Emits.stored_eq (hP : ∀ w, P w → w.attempts = none) (h : Emits P e e') :
    e'.stored = e.stored := by
  funext key
  have hframe := h.frame (fun store => store.attempts key) fun store w hw => by
    rw [Store.attempts_write, hP w hw]
  simp [stored, hframe]

theorem stored_write (hsome : e.store.isSome = true) {attempts : List Attempt}
    (hw : w.attempts = some (key, attempts)) :
    (e.write w).stored = Function.update e.stored key attempts := by
  obtain ⟨store, hstore⟩ := Option.isSome_iff_exists.1 hsome
  have hlists : e.stored = store.attempts := by
    funext key
    simp [stored, hstore]
  funext other
  rw [hlists, stored, write_store, hstore]
  simp [Store.attempts_write, hw]

omit [Rfc3339] in
theorem extends_of_attempts {attempts : List Attempt} (hw : w.attempts = some (key, attempts))
    (hearlier : e.stored key <+: attempts) (hnumbered : Numbered attempts) : e.Extends w := by
  intro key' attempts' hw'
  obtain ⟨rfl, rfl⟩ := Prod.mk.inj (Option.some.inj (hw.symm.trans hw'))
  exact ⟨hearlier, hnumbered⟩

@[simp]
theorem write_isSome (e : Exec) (w : Write) : (e.write w).store.isSome = e.store.isSome := by
  simp [write_store]

@[simp]
theorem write_attempts (e : Exec) (w : Write) : (e.write w).attempts = e.attempts := by
  unfold write
  split <;> rfl

/-- A part of the run that only writes. -/
structure Keeps (e e' : Exec) : Prop where
  logs : Logs e e'
  isSome : e'.store.isSome = e.store.isSome
  attempts : e'.attempts = e.attempts

theorem Keeps.of_eq {e e' : Exec} (hstore : e'.store = e.store) (hlog : e'.log = e.log)
    (hattempts : e'.attempts = e.attempts) : Keeps e e' :=
  ⟨.of_eq hstore hlog, by rw [hstore], hattempts⟩

theorem Keeps.trans {e e' e'' : Exec} (h : Keeps e e') (h' : Keeps e' e'') : Keeps e e'' :=
  ⟨h.logs.trans h'.logs, h'.isSome.trans h.isSome, h'.attempts.trans h.attempts⟩

theorem keeps_write (h : e.Extends w) : Keeps e (e.write w) :=
  ⟨logs_write h, write_isSome e w, write_attempts e w⟩

theorem write_keeps_none (hw : w.attempts = none) (e : Exec) :
    Keeps e (e.write w) ∧ (e.write w).stored = e.stored := by
  have hemits : Emits (fun w => w.attempts = none) e (e.write w) := emits_write hw e
  exact ⟨⟨hemits.logs fun _ h => h, write_isSome e w, write_attempts e w⟩,
    hemits.stored_eq fun _ h => h⟩

end Logs

end Exec

namespace Execution

variable (x : Execution)
variable {e : Exec} {id : ModelId}

def attemptKey (id : ModelId) : AttemptKey :=
  .model x.runId id.logicalName

theorem attemptKey_injective : Function.Injective x.attemptKey := by
  intro id id' h
  exact ModelId.logicalName_injective (AttemptKey.model.inj h).2

/-- What holds of the attempts while the loop runs: the record of a model that has
not finished holds the attempts its task has made, and no task has made any before
it starts. -/
structure Attempted (e : Exec) : Prop where
  isSome : e.store.isSome = true
  opened : ∀ id ∈ x.schedule.planned, (e.sched.status id).isTerminal = false →
    x.priorAttempts id = [] ∧ e.stored (x.attemptKey id) = e.attempts id
  pending : ∀ id ∈ x.schedule.planned, e.sched.status id = .pending → e.attempts id = []
  numbered : ∀ id, Numbered (e.attempts id)

variable {x}

theorem Attempted.stored_of_pending (h : x.Attempted e) (hid : id ∈ x.schedule.planned)
    (hpending : e.sched.status id = .pending) : e.stored (x.attemptKey id) = [] := by
  rw [(h.opened id hid (by rw [hpending]; rfl)).2, h.pending id hid hpending]

variable [Rfc3339]

/-- A step that leaves the attempts of the models alone that it does not finish. -/
theorem Attempted.of_keeps {e' : Exec} (h : x.Attempted e) (hkeeps : Exec.Keeps e e')
    (hopen : ∀ id, (e'.sched.status id).isTerminal = false → (e.sched.status id).isTerminal = false)
    (hpending : ∀ id, e'.sched.status id = .pending → e.sched.status id = .pending)
    (hstored : ∀ id ∈ x.schedule.planned, (e'.sched.status id).isTerminal = false →
      e'.stored (x.attemptKey id) = e.stored (x.attemptKey id)) : x.Attempted e' where
  isSome := hkeeps.isSome.trans h.isSome
  opened := by
    intro id hid hstatus
    rw [hstored id hid hstatus, hkeeps.attempts]
    exact h.opened id hid (hopen id hstatus)
  pending := by
    intro id hid hstatus
    rw [hkeeps.attempts]
    exact h.pending id hid (hpending id hstatus)
  numbered := by
    rw [hkeeps.attempts]
    exact h.numbered

/-! ### The writes of the run -/

/-- Reporting a model continues its record and touches no other. -/
theorem report_keeps (hsome : e.store.isSome = true) (id : ModelId) (result : ModelResult)
    (hmodel : result.model = id.logicalName)
    (hearlier : e.stored (x.attemptKey id) <+: result.attempts)
    (hnumbered : Numbered result.attempts) :
    Exec.Keeps e (e.report x.runId id result) ∧
      (e.report x.runId id result).stored =
        Function.update e.stored (x.attemptKey id) result.attempts := by
  let kept : Exec := { e with results := Function.update e.results id (some result) }
  have hw : (Write.recordModel (result.record x.runId)).attempts =
      some (x.attemptKey id, result.attempts) := by
    simp [Write.attempts, ModelResult.record, attemptKey, hmodel]
  have hkept : Exec.Keeps e kept := .of_eq rfl rfl rfl
  have hsome' : kept.store.isSome = true := hsome
  exact ⟨hkept.trans (Exec.keeps_write (Exec.extends_of_attempts hw hearlier hnumbered)),
    Exec.stored_write hsome' hw⟩

/-- Reporting a model that has made no attempts changes no record's attempts. -/
theorem report_keeps_nil (hsome : e.store.isSome = true) (result : ModelResult)
    (hmodel : result.model = id.logicalName) (hresult : result.attempts = [])
    (hnone : e.stored (x.attemptKey id) = []) :
    Exec.Keeps e (e.report x.runId id result) ∧ (e.report x.runId id result).stored = e.stored := by
  obtain ⟨hkeeps, hstored⟩ := report_keeps (x := x) hsome id result hmodel
    (by simp [hnone]) (by rw [hresult]; exact numbered_nil)
  refine ⟨hkeeps, ?_⟩
  rw [hstored, hresult, ← hnone]
  exact Function.update_eq_self _ _

theorem reportAll_keeps (status : ExecutionStatus) (failure : FailureCategory) (ids : List ModelId)
    (hsome : e.store.isSome = true) (hnone : ∀ id ∈ ids, e.stored (x.attemptKey id) = []) :
    Exec.Keeps e (x.reportAll status failure e ids) ∧
      (x.reportAll status failure e ids).stored = e.stored := by
  induction ids generalizing e with
  | nil => exact ⟨.of_eq rfl rfl rfl, rfl⟩
  | cons id ids ih =>
    rw [reportAll, List.foldl_cons]
    cases hmodel : x.compilation.model id with
    | none => exact ih hsome fun j hj => hnone j (by simp [hj])
    | some model =>
      have hid : model.id = id := Compilation.id_of_model hmodel
      obtain ⟨hkeeps, hsame⟩ := report_keeps_nil (x := x) hsome
        (modelResult model status [] (some failure) none none (e.info id))
        (by simp [modelResult, hid]) rfl (hnone id (by simp))
      obtain ⟨hkeeps', hsame'⟩ := ih (hkeeps.isSome.trans hsome) fun j hj => by
        rw [hsame]
        exact hnone j (by simp [hj])
      exact ⟨hkeeps.trans hkeeps', hsame'.trans hsame⟩

/-- Persisting a task that is running continues its record. -/
theorem persistRunning_keeps (hsome : e.store.isSome = true) (hid : id ∈ x.schedule.planned)
    (startedAt : String) {attempts : List Attempt} (failure : Option FailureCategory)
    (hearlier : e.stored (x.attemptKey id) <+: attempts) (hnumbered : Numbered attempts) :
    Exec.Keeps e (x.persistRunning e id startedAt attempts failure) ∧
      (x.persistRunning e id startedAt attempts failure).stored =
        Function.update e.stored (x.attemptKey id) attempts := by
  obtain ⟨model, -, hmodel, -⟩ := exists_compiled hid
  obtain rfl := Compilation.id_of_model hmodel
  unfold persistRunning
  simp only [hmodel]
  have hw : (Write.recordModel (runningRecord x.runId model startedAt (e.info model.id)
      attempts failure)).attempts = some (x.attemptKey model.id, attempts) := rfl
  exact ⟨Exec.keeps_write (Exec.extends_of_attempts hw hearlier hnumbered),
    Exec.stored_write hsome hw⟩

theorem advanceWatermark_keeps (e : Exec) (model : CompiledModel) (completion : Completion) :
    Exec.Keeps e (x.advanceWatermark e model completion) ∧
      (x.advanceWatermark e model completion).stored = e.stored := by
  unfold advanceWatermark
  split
  · split
    · next value _ =>
        exact Exec.write_keeps_none (w := .setWatermark model.id.logicalName
          x.options.environment value x.runId completion.now) rfl e
    · exact ⟨.of_eq rfl rfl rfl, rfl⟩
  · exact ⟨.of_eq rfl rfl rfl, rfl⟩

/-! ### The loop -/

/-- The sweep finds no task that has made an attempt and was cut off. -/
def SweepsUntried (x : Execution) (e : Exec) : Event → Prop
  | .tick _ => e.sched.phase = .drain →
      ∀ id ∈ e.sched.unfinished x.schedule.planned, e.attempts id = []
  | _ => True

instance (e : Exec) (event : Event) : Decidable (x.SweepsUntried e event) := by
  unfold SweepsUntried
  split <;> infer_instance

/-- A failed attempt is appended to the record of its task. -/
theorem Attempted.failAttempt {e : Exec} (h : x.Attempted e) {id : ModelId}
    (hid : id ∈ x.schedule.planned) (hrunning : e.sched.status id = .running)
    (startedAt attemptStartedAt : String) (failure : FailureCategory) :
    Exec.Logs e (x.failAttempt e id startedAt attemptStartedAt failure) ∧
      x.Attempted (x.failAttempt e id startedAt attemptStartedAt failure) := by
  obtain ⟨hprior, hsame⟩ := h.opened id hid (by rw [hrunning]; rfl)
  let made := e.attempts id ++ [x.nextAttempt e id attemptStartedAt (some failure)]
  let kept := x.keepFailure e id attemptStartedAt failure
  have hmade : Numbered made :=
    (h.numbered id).append (by simp [nextAttempt, allAttempts, hprior])
  have hall : x.allAttempts kept id = made := by
    simp [allAttempts, kept, keepFailure, hprior, made]
  have hearlier : kept.stored (x.attemptKey id) <+: made := by
    have hkept : kept.stored (x.attemptKey id) = e.attempts id := hsame
    exact hkept ▸ List.prefix_append _ _
  obtain ⟨hkeeps, hstored⟩ := persistRunning_keeps (x := x) (e := kept) h.isSome hid startedAt
    (some failure) hearlier hmade
  have hfail : x.failAttempt e id startedAt attemptStartedAt failure =
      x.persistRunning kept id startedAt made (some failure) := by
    rw [← hall]
    rfl
  have hattempts : (x.persistRunning kept id startedAt made (some failure)).attempts =
      Function.update e.attempts id made := hkeeps.attempts
  have hlogs : Exec.Logs e kept := .of_eq rfl rfl
  rw [hfail]
  refine ⟨hlogs.trans hkeeps.logs, ⟨hkeeps.isSome.trans h.isSome, ?_, ?_, ?_⟩⟩
  · intro j hj hopen
    rw [persistRunning_sched] at hopen
    refine ⟨(h.opened j hj hopen).1, ?_⟩
    rw [hstored, hattempts]
    by_cases hne : j = id
    · subst hne
      simp
    · rw [Function.update_of_ne fun heq => hne (x.attemptKey_injective heq),
        Function.update_of_ne hne]
      exact (h.opened j hj hopen).2
  · intro j hj hpending
    rw [persistRunning_sched] at hpending
    have hpending : e.sched.status j = .pending := hpending
    have hne : j ≠ id := fun heq => by
      rw [heq, hrunning] at hpending
      cases hpending
    rw [hattempts, Function.update_of_ne hne]
    exact h.pending j hj hpending
  · intro j
    rw [hattempts]
    by_cases hne : j = id
    · subst hne
      simpa using hmade
    · rw [Function.update_of_ne hne]
      exact h.numbered j

/-- The attempts of a model that finishes are all in its record. -/
theorem Attempted.report_finished (h : x.Attempted e) (hid : id ∈ x.schedule.planned)
    (hrunning : e.sched.status id = .running) (sched : Sched) (result : ModelResult)
    (hmodel : result.model = id.logicalName) (hearlier : e.attempts id <+: result.attempts)
    (hnumbered : Numbered result.attempts) :
    Exec.Keeps e ({ e with sched }.report x.runId id result) ∧
      ∀ j, j ≠ id → ({ e with sched }.report x.runId id result).stored (x.attemptKey j) =
        e.stored (x.attemptKey j) := by
  have hsame := (h.opened id hid (by rw [hrunning]; rfl)).2
  let moved : Exec := { e with sched }
  have hmoved : Exec.Keeps e moved := .of_eq rfl rfl rfl
  obtain ⟨hkeeps, hstored⟩ := report_keeps (x := x) (e := moved) h.isSome id result hmodel
    (show e.stored (x.attemptKey id) <+: _ from hsame ▸ hearlier) hnumbered
  refine ⟨hmoved.trans hkeeps, fun j hne => ?_⟩
  change (moved.report x.runId id result).stored (x.attemptKey j) = _
  rw [hstored, Function.update_of_ne fun heq => hne (x.attemptKey_injective heq)]
  rfl

theorem Attempted.passed (h : x.Attempted e) {model : CompiledModel}
    (hid : model.id ∈ x.schedule.planned) (hrunning : e.sched.status model.id = .running)
    (sched : Sched) (completion : Completion) :
    Exec.Keeps e (x.completeMain { e with sched } model completion) ∧
      Exec.Keeps e (x.completeDrain { e with sched } model completion) ∧
      ∀ j, j ≠ model.id →
        (x.completeMain { e with sched } model completion).stored (x.attemptKey j) =
            e.stored (x.attemptKey j) ∧
          (x.completeDrain { e with sched } model completion).stored (x.attemptKey j) =
            e.stored (x.attemptKey j) := by
  obtain ⟨hprior, -⟩ := h.opened model.id hid (by rw [hrunning]; rfl)
  let result := x.passedResult { e with sched } model completion
  have hattempts : result.attempts = e.attempts model.id ++
      [x.nextAttempt { e with sched } model.id completion.attemptStartedAt none] := by
    simp [result, passedResult, modelResult, allAttempts, hprior]
  obtain ⟨hreport, hothers⟩ := h.report_finished hid hrunning sched result rfl
    (hattempts ▸ List.prefix_append _ _) (hattempts ▸
      (h.numbered model.id).append (by simp [nextAttempt, allAttempts, hprior]))
  obtain ⟨hwatermark, hsame⟩ := advanceWatermark_keeps (x := x)
    ({ e with sched }.report x.runId model.id result) model completion
  refine ⟨hreport.trans hwatermark, hreport, fun j hne => ⟨?_, hothers j hne⟩⟩
  exact (congrFun hsame (x.attemptKey j)).trans (hothers j hne)

theorem failed_step {e' : Exec} {startedAt finishedAt : String} {failure : FailureCategory}
    (hinv : e.sched.LoopInv x.schedule)
    (hstep : x.step e (.failed id startedAt finishedAt failure) = some e') :
    ∃ model sched, x.compilation.model id = some model ∧ sched.status id = .failed ∧
      e.sched.status id = .running ∧ id ∈ x.schedule.planned ∧
      e' = x.reportBlocked
        ({ e with sched }.report x.runId id
          (modelResult model .failed (x.allAttempts e id) (some failure) (some startedAt)
            (some finishedAt) (e.info id)))
        (Sched.newlyBlocked x.schedule e.sched id .failed) := by
  rcases step_cases hstep with ⟨_, _, _, _, hevent, -⟩ |
    ⟨schedEvent, sched, hevent, hsched, rfl⟩
  · cases hevent
  · cases hevent
    have hmoved : ∀ {s : Sched}, s.status =
        (Sched.failBelow x.schedule e.sched id .failed).status →
        s.status id = .failed := by
      intro s hs
      have hnot : id ∉ Sched.newlyBlocked x.schedule e.sched id .failed := fun hid =>
        (Sched.open_of_mem_newlyBlocked rfl hid).1 rfl
      rw [hs, Sched.failBelow_status, if_neg hnot]
      simp
    cases Sched.stepTo_of_step hsched with
    | failMain hphase hid =>
      obtain ⟨model, -, hmodel, -⟩ := exists_compiled (hinv.planned_of_inflight hid)
      refine ⟨model, e.sched.failMain x.schedule x.loopOptions id, hmodel,
        hmoved (Sched.failMain_status e.sched id), hinv.inflight_running id hid,
        hinv.planned_of_inflight hid, ?_⟩
      simp [effects, hmodel, hphase, Sched.newlyBlocked]
    | failDrain hphase hid =>
      obtain ⟨model, -, hmodel, -⟩ := exists_compiled (hinv.planned_of_inflight hid)
      have hrunning := hinv.inflight_running id hid
      have hopen : (e.sched.status id).isTerminal = false := by
        rw [hrunning]
        rfl
      have hdrain : (e.sched.failDrain x.schedule id).status =
          (Sched.failBelow x.schedule e.sched id .failed).status := by
        simp [Sched.failDrain, hopen, Sched.failBelow, Sched.blockBelow, Sched.finish]
      refine ⟨model, _, hmodel, hmoved hdrain, hrunning, hinv.planned_of_inflight hid, ?_⟩
      simp [effects, hmodel, hopen, Sched.newlyBlocked]

theorem Attempted.failed {e : Exec} (h : x.Attempted e) (hinv : e.sched.LoopInv x.schedule)
    {id : ModelId} (hid : id ∈ x.schedule.planned) (hrunning : e.sched.status id = .running)
    (sched : Sched) (result : ModelResult) (hmodel : result.model = id.logicalName)
    (hresult : result.attempts = x.allAttempts e id) :
    Exec.Keeps e (x.reportBlocked ({ e with sched }.report x.runId id result)
        (Sched.newlyBlocked x.schedule e.sched id .failed)) ∧
      ∀ j, j ≠ id → (x.reportBlocked ({ e with sched }.report x.runId id result)
        (Sched.newlyBlocked x.schedule e.sched id .failed)).stored (x.attemptKey j) =
          e.stored (x.attemptKey j) := by
  obtain ⟨hprior, -⟩ := h.opened id hid (by rw [hrunning]; rfl)
  have hattempts : result.attempts = e.attempts id := by
    rw [hresult, allAttempts, hprior, List.nil_append]
  obtain ⟨hreport, hothers⟩ := h.report_finished hid hrunning sched result hmodel
    (hattempts ▸ List.prefix_refl _) (hattempts ▸ h.numbered id)
  have hopen : (e.sched.status id).isTerminal = false := by
    rw [hrunning]
    rfl
  obtain ⟨hblocked, hsame⟩ := reportAll_keeps (x := x) .blocked .dependency
    (Sched.newlyBlocked x.schedule e.sched id .failed) (hreport.isSome.trans h.isSome)
    fun j hj => by
      have hpending := Sched.pending_of_mem_newlyBlocked hinv.consistent hopen rfl hj
      rw [hothers j (Sched.open_of_mem_newlyBlocked rfl hj).1]
      exact h.stored_of_pending (Sched.exists_dependency_of_mem_newlyBlocked hj).1 hpending
  exact ⟨hreport.trans hblocked, fun j hne => (congrFun hsame _).trans (hothers j hne)⟩

/-- The loop moves on by itself: a task starts, or the leftover models are swept. -/
theorem Attempted.tick {e : Exec} (h : x.Attempted e) (hinv : e.sched.LoopInv x.schedule)
    {now : String} (hsweeps : x.SweepsUntried e (.tick now)) {sched : Sched}
    (hsched : e.sched.step x.schedule x.loopOptions .tick = some sched) :
    Exec.Keeps e (x.effects e sched (.tick now)) ∧
      (x.effects e sched (.tick now)).stored = e.stored := by
  have hmoved : Exec.Keeps e { e with sched } := .of_eq rfl rfl rfl
  cases Sched.stepTo_of_step hsched with
  | head hphase =>
    simp only [effects, hphase]
    exact ⟨hmoved, rfl⟩
  | fill hphase =>
    simp only [effects, hphase]
    cases hstarts : e.sched.dispatched x.loopOptions with
    | none => exact ⟨hmoved, rfl⟩
    | some id =>
      obtain ⟨hid, hpending⟩ : id ∈ e.sched.ready ∧ e.sched.status id = .pending := by
        unfold Sched.dispatched at hstarts
        split at hstarts
        · next first rest hready =>
            split at hstarts
            · next hfree =>
                cases hstarts
                exact ⟨by simp [hready], hfree.2⟩
            · cases hstarts
        · cases hstarts
      have hplanned := (hinv.ready_zero id hid).1
      have hnil := h.stored_of_pending hplanned hpending
      let moved : Exec := { e with sched := e.sched.tickFill x.loopOptions }
      obtain ⟨hkeeps, hstored⟩ := persistRunning_keeps (x := x) (e := moved) h.isSome
        hplanned now none (show e.stored (x.attemptKey id) <+: [] by rw [hnil])
        numbered_nil
      refine ⟨hmoved.trans hkeeps, hstored.trans ?_⟩
      exact (congrArg _ hnil.symm).trans (Function.update_eq_self (x.attemptKey id) e.stored)
  | sweep hphase hidle =>
    simp only [effects, hphase]
    let moved : Exec := { e with sched := e.sched.sweep x.schedule }
    obtain ⟨hkeeps, hstored⟩ := reportAll_keeps (x := x) (e := moved) e.sched.leftoverStatus
      (if e.sched.leftoverStatus = .cancelled then .cancelled else .dependency)
      (e.sched.unfinished x.schedule.planned) h.isSome fun id hid => by
        obtain ⟨hplanned, hopen⟩ := List.mem_filter.1 hid
        have hsame := (h.opened id hplanned (by simpa using hopen)).2
        exact hsame.trans (hsweeps hphase id hid)
    exact ⟨hmoved.trans hkeeps, hstored⟩

/-- Every event continues the history, as long as the sweep finds no task cut off
after an attempt. -/
theorem Attempted.step {start : Option Store} {opening : Opening} {e e' : Exec} {event : Event}
    (h : x.Attempted e) (hreached : Prelude.Reached x.schedule (x.prelude opening start) e.sched)
    (hsweeps : x.SweepsUntried e event) (hstep : x.step e event = some e') :
    Exec.Logs e e' ∧ x.Attempted e' := by
  have hinv : e.sched.inflight ≠ [] ∨ e.sched.phase ≠ .done → e.sched.LoopInv x.schedule := by
    rcases hreached with ⟨-, hinv, -⟩ | ⟨u, c, -, -, -, hidle, hswept⟩
    · exact fun _ => hinv
    · intro hlive
      rw [hswept, Sched.sweep_eq] at hlive
      simp [hidle] at hlive
  rcases step_cases hstep with ⟨id, startedAt, attemptStartedAt, failure, -, hid, rfl⟩ |
    ⟨schedEvent, sched, hevent, hsched, he'⟩
  · have hinv := hinv (Or.inl (List.ne_nil_of_mem hid))
    exact h.failAttempt (hinv.planned_of_inflight hid) (hinv.inflight_running id hid) ..
  · have hsame : e'.sched = sched := by rw [he', effects_sched]
    have hopen : ∀ id, (e'.sched.status id).isTerminal = false →
        (e.sched.status id).isTerminal = false := by
      intro id hid
      cases hterm : (e.sched.status id).isTerminal with
      | false => rfl
      | true =>
        rw [hsame, hreached.status_eq_of_terminal hsched hterm, hterm] at hid
        cases hid
    have hpending : ∀ id, e'.sched.status id = .pending → e.sched.status id = .pending := by
      intro id hid
      exact hreached.pending_of_step hsched (hsame ▸ hid)
    have hquiet : e'.store = e.store → e'.log = e.log → e'.attempts = e.attempts →
        Exec.Logs e e' ∧ x.Attempted e' := by
      intro hstore hlog hattempts
      have hkeeps : Exec.Keeps e e' := .of_eq hstore hlog hattempts
      exact ⟨hkeeps.logs, h.of_keeps hkeeps hopen hpending fun id _ _ => by
        simp only [Exec.stored, hstore]⟩
    cases event with
    | requestCancel | noticeCancel | abort _ =>
      rw [he'] at hquiet ⊢
      exact hquiet rfl rfl rfl
    | attemptFailed _ _ _ _ => cases hevent
    | tick now =>
      cases hevent
      have hlive : e.sched.phase ≠ .done := by
        intro hdone
        simp [Sched.step, hdone] at hsched
      rw [he'] at hopen hpending ⊢
      obtain ⟨hkeeps, hstored⟩ := h.tick (hinv (Or.inr hlive)) hsweeps hsched
      exact ⟨hkeeps.logs, h.of_keeps hkeeps hopen hpending fun id _ _ => by rw [hstored]⟩
    | passed id completion =>
      have hinv := loopInv_of_passed hreached hstep
      obtain ⟨model, passed, hmodel, hpassed, hrunning, hid, hphase⟩ := passed_step hinv hstep
      obtain rfl := Compilation.id_of_model hmodel
      obtain ⟨hmain, hdrain, hothers⟩ := h.passed hid hrunning passed completion
      have hfinished : e'.sched = passed := by
        rcases hphase with ⟨-, rfl⟩ | ⟨-, rfl⟩
        · simp [completeMain]
        · simp [completeDrain]
      have hne : ∀ j, (e'.sched.status j).isTerminal = false → j ≠ model.id := by
        rintro j hj rfl
        simp [hfinished, hpassed, ExecutionStatus.isTerminal] at hj
      rcases hphase with ⟨-, rfl⟩ | ⟨-, rfl⟩
      · exact ⟨hmain.logs, h.of_keeps hmain hopen hpending fun j _ hj =>
          (hothers j (hne j hj)).1⟩
      · exact ⟨hdrain.logs, h.of_keeps hdrain hopen hpending fun j _ hj =>
          (hothers j (hne j hj)).2⟩
    | failed id startedAt finishedAt failure =>
      have hjoin : id ∈ e.sched.inflight := by
        cases hevent
        cases Sched.stepTo_of_step hsched with
        | failMain _ hid | failDrain _ hid => exact hid
      have hinv := hinv (Or.inl (List.ne_nil_of_mem hjoin))
      obtain ⟨model, failed, hmodel, hfailed, hrunning, hid, rfl⟩ := failed_step hinv hstep
      obtain ⟨hkeeps, hothers⟩ := h.failed hinv hid hrunning failed
        (modelResult model .failed (x.allAttempts e id) (some failure)
          (some startedAt) (some finishedAt) (e.info id))
        (by simp [modelResult, Compilation.id_of_model hmodel]) rfl
      refine ⟨hkeeps.logs, h.of_keeps hkeeps hopen hpending fun j _ hj => hothers j ?_⟩
      rintro rfl
      simp [hfailed, ExecutionStatus.isTerminal] at hj

theorem Attempted.run {start : Option Store} {opening : Opening} {events : List Event}
    {e e' : Exec} (h : x.Attempted e)
    (hreached : Prelude.Reached x.schedule (x.prelude opening start) e.sched)
    (heach : x.loop.EachStep x.SweepsUntried e events) (hrun : x.loop.run e events = some e') :
    Exec.Logs e e' := by
  have hall : Prelude.Reached x.schedule (x.prelude opening start) e'.sched ∧
      x.Attempted e' ∧ Exec.Logs e e' := by
    refine StepSystem.EachStep.invariant x.loop (P := fun s => Prelude.Reached x.schedule
      (x.prelude opening start) s.sched ∧ x.Attempted s ∧ Exec.Logs e s) ?_
      ⟨hreached, h, .of_eq rfl rfl⟩ heach hrun
    rintro s event s' ⟨hreached, h, hlogs⟩ hsweeps hstep
    obtain ⟨hlogs', h'⟩ := h.step hreached hsweeps hstep
    refine ⟨?_, h', hlogs.trans hlogs'⟩
    rcases step_cases hstep with ⟨_, _, _, _, -, -, rfl⟩ | ⟨_, sched, -, hsched, rfl⟩
    · simpa using hreached
    · rw [effects_sched]
      exact hreached.step (prelude_valid start) hsched
  exact hall.2.2

end Execution

end PhloTransform.Engine
