import PhloTransform.Engine.Plan
import PhloTransform.Engine.Scheduler

/-!
# Executing a plan

The runner persists the run, loads the seeds, carries over what need not be
built, drives the scheduling loop and finally runs the tests and records what
was materialised.  Every store write is logged, so a killed process leaves the
store some prefix of the log produces.  The answers of the adapter, the clock and
the completion of tasks are parameters.
-/

namespace PhloTransform.Engine

open Core (Compilation CompiledModel CompiledTest ModelId Relation SourceId
  adapterDefaultSchema relationForSource seedRelation)
open Library (StepSystem)

/-! ## Writes -/

/-- One write to the store. -/
inductive Write where
  | startRun (run : RunRecord) (plan : StoredPlan)
  | reopenRun (runId : String)
  | recordModel (record : ModelRunRecord)
  | recordSeedRun (record : SeedRunRecord)
  | recordTest (record : TestRunRecord)
  | recordMaterialized (record : MaterializedRecord)
  | recordSeed (record : SeedRecord)
  | setWatermark (modelId : String) (environment : Option String)
      (value runId now : String)
  | finishRun (runId : String) (status : ExecutionStatus) (finishedAt : String)
      (failedCount : Nat)
deriving DecidableEq

def Store.write [Rfc3339] (store : Store) : Write → Store
  | .startRun run plan => (store.startRun run plan).getD store
  | .reopenRun runId => store.reopenRun runId
  | .recordModel record => store.recordModel record
  | .recordSeedRun record => store.recordSeedRun record
  | .recordTest record => store.recordTest record
  | .recordMaterialized record => store.recordMaterialized record
  | .recordSeed record => store.recordSeed record
  | .setWatermark modelId environment value runId now =>
    store.setWatermark modelId environment value runId now
  | .finishRun runId status finishedAt failedCount =>
    store.finishRun runId status finishedAt failedCount

/-! ## Results -/

/-- The outcome of a single model. -/
structure ModelResult where
  model : String
  target : String
  materialization : String
  action : String
  status : ExecutionStatus
  desiredVersion : String
  previousVersion : Option String
  attempts : List Attempt
  failure : Option FailureCategory
  startedAt : Option String
  finishedAt : Option String
  outputIdentity : Option String
deriving DecidableEq

/-- The outcome of a single seed. -/
structure SeedResult where
  seed : String
  target : String
  status : ExecutionStatus
  attempts : List Attempt
  failure : Option FailureCategory
deriving DecidableEq

/-- The outcome of a single test. -/
structure TestResult where
  test : String
  status : ExecutionStatus
  failure : Option FailureCategory
deriving DecidableEq

/-- `model_result`. -/
def modelResult (model : CompiledModel) (status : ExecutionStatus) (attempts : List Attempt)
    (failure : Option FailureCategory) (startedAt finishedAt : Option String)
    (info : Option PlannedModel) : ModelResult where
  model := model.id.logicalName
  target := model.target.display
  materialization := model.config.materialization.asStr
  action := (info.map fun planned => planned.action.asStr).getD "build"
  status := status
  desiredVersion := (info.map PlannedModel.desiredVersion).getD ""
  previousVersion := info.bind PlannedModel.currentVersion
  attempts := attempts
  failure := failure
  startedAt := startedAt
  finishedAt := finishedAt
  outputIdentity := none

/-- `persist_model`. -/
def ModelResult.record (runId : String) (result : ModelResult) : ModelRunRecord where
  runId := runId
  modelId := result.model
  materialization := result.materialization
  action := result.action
  status := result.status
  startedAt := result.startedAt.getD ""
  finishedAt := result.finishedAt.getD ""
  target := result.target
  desiredVersion := result.desiredVersion
  attempts := result.attempts
  errorCategory := result.failure.map FailureCategory.code

/-- `persist_model_start`, and the record of a failed attempt. -/
def runningRecord (runId : String) (model : CompiledModel) (startedAt : String)
    (info : Option PlannedModel) (attempts : List Attempt) (failure : Option FailureCategory) :
    ModelRunRecord where
  runId := runId
  modelId := model.id.logicalName
  materialization := model.config.materialization.asStr
  action := (info.map fun planned => planned.action.asStr).getD "build"
  status := .running
  startedAt := startedAt
  finishedAt := ""
  target := model.target.display
  desiredVersion := (info.map PlannedModel.desiredVersion).getD ""
  attempts := attempts
  errorCategory := failure.map FailureCategory.code

/-- `persist_seed`. -/
def SeedResult.record (runId startedAt finishedAt : String) (result : SeedResult) :
    SeedRunRecord where
  runId := runId
  name := result.seed
  status := result.status
  target := result.target
  attempts := result.attempts
  errorCategory := result.failure.map FailureCategory.code
  startedAt := startedAt
  finishedAt := finishedAt

/-- `persist_test`. -/
def TestResult.record (runId now : String) (result : TestResult) : TestRunRecord where
  runId := runId
  testId := result.test
  status := result.status
  errorCategory := result.failure.map FailureCategory.code
  startedAt := now
  finishedAt := now

/-! ## The state of a run -/

/-- The loop's control state with the run's results and effects. -/
structure Exec where
  sched : Sched
  info : ModelId → Option PlannedModel
  results : ModelId → Option ModelResult
  /-- The attempts that the tasks of this call have made and persisted. -/
  attempts : ModelId → List Attempt
  store : Option Store
  log : List Write

namespace Exec

section Effects

variable [Rfc3339]

/-- One write; a run without a store writes nothing. -/
def write (e : Exec) (w : Write) : Exec :=
  match e.store with
  | some store => { e with store := some (store.write w), log := e.log ++ [w] }
  | none => e

def report (e : Exec) (runId : String) (id : ModelId) (result : ModelResult) : Exec :=
  { e with results := Function.update e.results id (some result) }.write
    (.recordModel (result.record runId))

end Effects

end Exec

/-- The records of the run being resumed, by node. -/
structure PriorRun where
  models : String → Option ModelRunRecord
  seeds : String → Option SeedRunRecord

namespace PriorRun

/-- `PriorRun::default()`. -/
def none : PriorRun where
  models := fun _ => Option.none
  seeds := fun _ => Option.none

/-- `reusable_model`: a success at the still-desired version. -/
def reusableModel (prior : PriorRun) (id : ModelId) (desiredVersion : String) : Bool :=
  match prior.models id.logicalName with
  | some record => decide (record.status = .passed) &&
      decide (record.desiredVersion = desiredVersion)
  | Option.none => false

/-- `reusable_seed`: a successful load of the same content. -/
def reusableSeed (prior : PriorRun) (name storedVersion currentHash : String) : Bool :=
  decide (storedVersion = currentHash) &&
    match prior.seeds name with
    | some record => decide (record.status = .passed)
    | Option.none => false

end PriorRun

/-- The options of a run that its logic reads. -/
structure RunOptions where
  environment : Option String
  concurrency : Nat
  runTests : Bool
  failFast : Bool

/-- What one call of `Runner::execute` is given.  Every planned model is
compiled: stale plans are refused, and resumed plans are made afresh. -/
structure Execution where
  compilation : Compilation
  plan : Plan
  options : RunOptions
  adapterName : String
  runId : String
  prior : PriorRun
  resume : Bool
  compiled : ∀ planned ∈ plan.models, (compilation.model planned.id).isSome = true

/-- How the load of one seed went. -/
structure SeedAnswer where
  failedAttempts : List FailureCategory
  attemptStartedAt : Nat → String
  failed : Bool
  cancelRequested : Bool
  startedAt : String
  finishedAt : String

namespace SeedAnswer

variable (answer : SeedAnswer)

/-- The failed attempts, numbered from one. -/
def failures : List Attempt :=
  answer.failedAttempts.zipIdx.map fun (category, i) =>
    { attempt := i + 1, startedAt := answer.attemptStartedAt (i + 1), failure := some category }

def attempts : List Attempt :=
  if answer.failed then answer.failures
  else
    let last := answer.failedAttempts.length + 1
    answer.failures ++
      [{ attempt := last, startedAt := answer.attemptStartedAt last, failure := none }]

end SeedAnswer

/-- The answers up to the loop. -/
structure Opening where
  startedAt : String
  seeds : String → SeedAnswer
  verified : ModelId → Option String
  now : ModelId → String

/-- A task that built its model. -/
structure Completion where
  startedAt : String
  attemptStartedAt : String
  finishedAt : String
  identity : Option String
  /-- The greatest value of the window column, when the query found one. -/
  observedMax : Option String
  now : String

/-- How one test query went. -/
inductive TestAnswer where
  | rows (count : Nat)
  | error (category : FailureCategory)

/-- The answers after the loop. -/
structure Closing where
  /-- Cancellation has been requested when the test is reached. -/
  cancelRequested : String → Bool
  tests : String → TestAnswer
  testClock : String → String
  live : ModelId → Option String
  finishedAt : String

namespace Execution

variable (x : Execution)

/-- The planned models as the loop sees them. -/
def schedule : Schedule where
  planned := x.plan.models.map PlannedModel.id
  planned_nodup := x.plan.models_nodup
  modelDependencies := x.compilation.modelDependencies
  dependencies_nodup := x.compilation.modelDependencies_nodup

def loopOptions : LoopOptions where
  concurrency := x.options.concurrency
  failFast := x.options.failFast

def info (id : ModelId) : Option PlannedModel :=
  x.plan.models.find? fun planned => decide (planned.id = id)

def defaultSchema : Option String :=
  x.compilation.defaults.schema.or (adapterDefaultSchema x.adapterName)

/-- `StoredPlan::from_plan`. -/
def storedPlan : StoredPlan where
  planId := x.plan.id
  environment := x.options.environment
  models := x.plan.models.map fun planned =>
    { id := planned.id.logicalName
      target := planned.target
      action := planned.action.asStr
      desiredVersion := planned.desiredVersion
      fullRebuild := planned.fullRebuild
      watermark := planned.watermark }
  seeds := x.plan.seeds.map fun planned =>
    { name := planned.name
      target := planned.target
      action := planned.action.asStr
      desiredVersion := planned.desiredVersion }
  tests := x.plan.tests.map fun planned =>
    { id := planned.id, targets := planned.targets, sources := planned.sources }

/-! ## Up to the loop -/

section Opening

variable [Rfc3339] (opening : Opening)

/-- The state of the seed loads. -/
structure SeedLoads where
  exec : Exec
  results : List SeedResult
  cancelled : Bool
  failFast : Bool

def SeedLoads.report (s : SeedLoads) (runId startedAt finishedAt : String)
    (result : SeedResult) : SeedLoads :=
  { s with
    exec := s.exec.write (.recordSeedRun (result.record runId startedAt finishedAt))
    results := s.results ++ [result] }

/-- Load one seed: `run_seed`. -/
def runSeed (s : SeedLoads) (planned : PlannedSeed) (target : String)
    (answer : SeedAnswer) : SeedLoads :=
  let result (status : ExecutionStatus) (attempts : List Attempt)
      (failure : Option FailureCategory) : SeedResult :=
    { seed := planned.name, target, status, attempts, failure }
  let persisted := answer.failedAttempts.zipIdx.foldl
    (fun e (category, i) => e.write (.recordSeedRun
      ((result .running (answer.failures.take (i + 1)) (some category)).record x.runId
        answer.startedAt answer.finishedAt)))
    s.exec
  let final :=
    if answer.failed then result .failed answer.attempts answer.failedAttempts.getLast?
    else result .passed answer.attempts none
  { s with exec := persisted }.report x.runId answer.startedAt answer.finishedAt final

def loadSeed (s : SeedLoads) (planned : PlannedSeed) : SeedLoads :=
  match x.compilation.seed planned.name with
  | none => s
  | some seed =>
    let answer := opening.seeds planned.name
    if s.cancelled || s.failFast then
      s.report x.runId answer.startedAt answer.startedAt
        { seed := planned.name, target := planned.target, status := .cancelled,
          attempts := [], failure := some .cancelled }
    else if planned.action ≠ .build then
      match x.prior.seeds seed.name with
      | some record =>
        if record.status = .passed then
          { s with results := s.results ++
            [{ seed := planned.name, target := planned.target, status := .cached,
               attempts := [], failure := none }] }
        else
          s.report x.runId answer.startedAt answer.startedAt
            { seed := planned.name, target := planned.target, status := .skipped,
              attempts := [], failure := none }
      | none =>
        s.report x.runId answer.startedAt answer.startedAt
          { seed := planned.name, target := planned.target, status := .skipped,
            attempts := [], failure := none }
    else
      let relation := seedRelation seed x.compilation.defaults.catalog x.defaultSchema
        x.adapterName
      let loaded := x.runSeed s planned relation.display answer
      { loaded with
        cancelled := answer.cancelRequested
        failFast := answer.failed && x.options.failFast }

def fresh (store : Option Store) : Exec where
  sched := Sched.initial x.schedule false false false
  info := x.info
  results := fun _ => none
  attempts := fun _ => []
  store := store
  log := []

def openRun (store : Option Store) : Exec :=
  if x.resume then (x.fresh store).write (.reopenRun x.runId)
  else
    (x.fresh store).write (.startRun
      { runId := x.runId
        planId := x.plan.id
        environment := x.options.environment
        referenceHash := none
        startedAt := opening.startedAt
        finishedAt := none
        status := .running
        modelCount := x.plan.models.length
        failedCount := 0 } x.storedPlan)

def loadSeeds (store : Option Store) : SeedLoads :=
  x.plan.seeds.foldl (x.loadSeed opening)
    { exec := x.openRun opening store, results := [], cancelled := false, failFast := false }

end Opening

/-- A model is carried over from an earlier invocation of the run. -/
def reused (id : ModelId) : Option ExecutionStatus :=
  match x.compilation.model id, x.info id with
  | some model, some planned =>
    if planned.targetExists && x.prior.reusableModel id model.version.hash then some .cached
    else none
  | _, _ => none

/-- The planned adoption, when the target still reports the recorded identity. -/
def adoption (opening : Opening) (id : ModelId) : Option CacheSource :=
  (x.info id).bind fun planned =>
    if planned.action = .cached then
      planned.reuse.filter fun reuse =>
        decide (opening.verified id = some reuse.outputIdentity)
    else none

def settled (opening : Opening) (id : ModelId) : Option ExecutionStatus :=
  match x.info id with
  | some planned =>
    if planned.action = .skip then some .skipped
    else if (x.adoption opening id).isSome then some .cached
    else none
  | none => none

/-- The displays of the seeds that failed to load. -/
def failedSeedTargets (results : List SeedResult) : List String :=
  (results.filter fun result => decide (result.status = .failed)).map SeedResult.target

/-- A source is one of the failed seeds. -/
def isFailedSeed (failed : List String) (source : SourceId) : Bool :=
  decide ((relationForSource source x.compilation.defaults.catalog
    x.defaultSchema).display ∈ failed)

/-- The model directly reads a seed that failed to load. -/
def readsFailedSeed (failed : List String) (id : ModelId) : Bool :=
  (x.compilation.sourceDependencies id).any (x.isFailedSeed failed)

/-- The materialisation record of a model. -/
def materializedRecord (model : CompiledModel) (outputIdentity : Option String)
    (runId materializedAt : String) : MaterializedRecord where
  modelId := model.id.logicalName
  environment := x.options.environment
  version := model.version
  target := model.target.display
  incrementalStrategy := model.incrementalStrategy
  incrementalKey := model.incrementalKey
  adapter := some x.adapterName
  outputIdentity := outputIdentity
  runId := runId
  materializedAt := materializedAt

section Loop

variable [Rfc3339] (opening : Opening) (closing : Closing)

/-- Carry one model over from an earlier invocation; its record stands. -/
def reuseOne (e : Exec) (id : ModelId) : Exec :=
  if e.sched.status id = .pending then
    match x.reused id, x.compilation.model id with
    | some status, some model =>
      { e with
        sched := e.sched.satisfy x.schedule id status
        results := Function.update e.results id
          (some (modelResult model status [] none none none (e.info id))) }
    | _, _ => e
  else e

/-- Adopt a verified output into this environment's state: the record claims the
producing run, and a watermark belongs to the content. -/
def adopt (e : Exec) (model : CompiledModel) (reuse : CacheSource) : Exec :=
  let recorded := e.write (.recordMaterialized
    (x.materializedRecord model (some reuse.outputIdentity) reuse.runId reuse.materializedAt))
  if model.isTimeWindow then
    match recorded.store.bind fun store =>
        store.watermark model.id.logicalName reuse.environment with
    | some watermark => recorded.write (.setWatermark model.id.logicalName
        x.options.environment watermark x.runId (opening.now model.id))
    | none => recorded
  else recorded

/-- A cached action whose evidence went stale becomes a full rebuild. -/
def demote (planned : PlannedModel) : PlannedModel :=
  { planned with action := .build, fullRebuild := true, reuse := none }

/-- What is recorded for a model that is skipped or adopted. -/
def carryOver (e : Exec) (model : CompiledModel) : Exec :=
  match x.adoption opening model.id with
  | some reuse => x.adopt opening e model reuse
  | none => e

/-- The result of a model that is skipped or adopted. -/
def settledResult (e : Exec) (model : CompiledModel) (status : ExecutionStatus) :
    ModelResult :=
  { modelResult model status [] none none none (e.info model.id) with
    outputIdentity := if status = .cached then opening.verified model.id else none }

/-- Skip or adopt one model that does not need building. -/
def settleOne (e : Exec) (id : ModelId) : Exec :=
  if e.sched.status id = .pending then
    match x.settled opening id, x.compilation.model id with
    | some status, some model =>
      { x.carryOver opening e model with
        sched := e.sched.satisfy x.schedule id status }.report x.runId id
          (settledResult opening e model status)
    | _, _ =>
      match e.info id with
      | some planned =>
        if planned.action = .cached then
          { e with info := Function.update e.info id (some (demote planned)) }
        else e
      | none => e
  else e

/-- Report models that end without having been executed. -/
def reportAll (status : ExecutionStatus) (failure : FailureCategory) (e : Exec)
    (ids : List ModelId) : Exec :=
  ids.foldl
    (fun e id =>
      match x.compilation.model id with
      | some model => e.report x.runId id
          (modelResult model status [] (some failure) none none (e.info id))
      | none => e)
    e

def reportBlocked (e : Exec) (blocked : List ModelId) : Exec :=
  x.reportAll .blocked .dependency e blocked

/-- Block one model that reads a failed seed, and what is below it. -/
def blockSeedReaderOne (failed : List String) (e : Exec) (id : ModelId) : Exec :=
  if e.sched.status id = .pending && x.readsFailedSeed failed id then
    let sched := (e.sched.finish id .blocked).blockBelow x.schedule id
    x.reportBlocked { e with sched }
      (id :: (x.schedule.blockDependents id
        (Function.update e.sched.status id .blocked)).2)
  else e

/-- The state in which the loop is entered. -/
def enter (store : Option Store) : Exec :=
  let loads := x.loadSeeds opening store
  let failed := failedSeedTargets loads.results
  let opened : Exec :=
    { loads.exec with
      sched := Sched.initial x.schedule loads.cancelled loads.cancelled loads.failFast }
  let reused := x.schedule.planned.foldl x.reuseOne opened
  let settled := x.schedule.planned.foldl (x.settleOne opening) reused
  let blocked := x.schedule.planned.foldl (x.blockSeedReaderOne failed) settled
  { blocked with sched := blocked.sched.enqueueReady x.schedule }

/-- What was decided before the loop, as the scheduler sees it. -/
def prelude (store : Option Store) : Prelude :=
  let loads := x.loadSeeds opening store
  { reused := x.reused
    settled := x.settled opening
    readsFailedSeed := x.readsFailedSeed (failedSeedTargets loads.results)
    cancelRequested := loads.cancelled
    cancelled := loads.cancelled
    failFast := loads.failFast }

/-! ## The loop -/

/-- The attempts that earlier calls of the run recorded for a model. -/
def priorAttempts (id : ModelId) : List Attempt :=
  ((x.prior.models id.logicalName).map ModelRunRecord.attempts).getD []

/-- All attempts of a model in flight, those of earlier calls first. -/
def allAttempts (e : Exec) (id : ModelId) : List Attempt :=
  x.priorAttempts id ++ e.attempts id

/-- The attempt a task in flight is making; numbering continues across calls. -/
def nextAttempt (e : Exec) (id : ModelId) (startedAt : String)
    (failure : Option FailureCategory) : Attempt where
  attempt := (x.allAttempts e id).length + 1
  startedAt := startedAt
  failure := failure

/-- Persist the start of a task, or one of its failed attempts. -/
def persistRunning (e : Exec) (id : ModelId) (startedAt : String) (attempts : List Attempt)
    (failure : Option FailureCategory) : Exec :=
  match x.compilation.model id with
  | some model =>
    e.write (.recordModel
      (runningRecord x.runId model startedAt (e.info id) attempts failure))
  | none => e

/-- Keep a failed attempt of a task in flight. -/
def keepFailure (e : Exec) (id : ModelId) (startedAt : String) (failure : FailureCategory) :
    Exec :=
  let made := e.attempts id ++ [x.nextAttempt e id startedAt (some failure)]
  { e with attempts := Function.update e.attempts id made }

/-- A failed attempt of a task in flight: every attempt so far is persisted. -/
def failAttempt (e : Exec) (id : ModelId) (startedAt attemptStartedAt : String)
    (failure : FailureCategory) : Exec :=
  let e := x.keepFailure e id attemptStartedAt failure
  x.persistRunning e id startedAt (x.allAttempts e id) (some failure)

/-- The result of a task that built its model. -/
def passedResult (e : Exec) (model : CompiledModel) (completion : Completion) :
    ModelResult :=
  { modelResult model .passed (x.allAttempts e model.id ++
        [x.nextAttempt e model.id completion.attemptStartedAt none]) none
      (some completion.startedAt) (some completion.finishedAt) (e.info model.id) with
    outputIdentity := completion.identity }

/-- `advance_watermark`: hand the observed maximum of the window over. -/
def advanceWatermark (e : Exec) (model : CompiledModel) (completion : Completion) : Exec :=
  if model.isTimeWindow then
    match completion.observedMax with
    | some value => e.write (.setWatermark model.id.logicalName x.options.environment value
        x.runId completion.now)
    | none => e
  else e

/-- The main loop's effects of a success. -/
def completeMain (e : Exec) (model : CompiledModel) (completion : Completion) : Exec :=
  x.advanceWatermark (e.report x.runId model.id (x.passedResult e model completion)) model
    completion

/-- The drain loop's effects of a success. -/
def completeDrain (e : Exec) (model : CompiledModel) (completion : Completion) : Exec :=
  e.report x.runId model.id (x.passedResult e model completion)

def reportLeftover (e : Exec) (status : ExecutionStatus) (ids : List ModelId) : Exec :=
  x.reportAll status (if status = .cancelled then .cancelled else .dependency) e ids

/-- What reaches a running loop. -/
inductive Event where
  | tick (now : String)
  | requestCancel
  | noticeCancel
  /-- An attempt of a task in flight failed; the task may try again. -/
  | attemptFailed (id : ModelId) (startedAt attemptStartedAt : String)
      (failure : FailureCategory)
  | passed (id : ModelId) (completion : Completion)
  | failed (id : ModelId) (startedAt finishedAt : String) (failure : FailureCategory)
  | abort (id : ModelId)

def Event.sched : Event → Option SchedEvent
  | tick _ => some .tick
  | requestCancel => some .requestCancel
  | noticeCancel => some .noticeCancel
  | attemptFailed .. => none
  | passed id _ => some (.join id true)
  | failed id _ _ _ => some (.join id false)
  | abort id => some (.abort id)

/-- The effects of a scheduler step from `e.sched` to `sched`. -/
def effects (e : Exec) (sched : Sched) : Event → Exec
  | .tick now =>
    match e.sched.phase with
    | .fill =>
      match e.sched.dispatched x.loopOptions with
      | some id => x.persistRunning { e with sched } id now [] none
      | none => { e with sched }
    | .drain => x.reportLeftover { e with sched } e.sched.leftoverStatus
        (e.sched.unfinished x.schedule.planned)
    | _ => { e with sched }
  | .passed id completion =>
    match x.compilation.model id with
    | some model =>
      if e.sched.phase = .wait then x.completeMain { e with sched } model completion
      else if (e.sched.status id).isTerminal then { e with sched }
      else x.completeDrain { e with sched } model completion
    | none => { e with sched }
  | .failed id startedAt finishedAt failure =>
    match x.compilation.model id with
    | some model =>
      if e.sched.phase ≠ .wait ∧ (e.sched.status id).isTerminal then { e with sched }
      else
        x.reportBlocked
          ({ e with sched }.report x.runId id
            (modelResult model .failed (x.allAttempts e id) (some failure) (some startedAt)
              (some finishedAt) (e.info id)))
          (x.schedule.blockDependents id (Function.update e.sched.status id .failed)).2
    | none => { e with sched }
  | .requestCancel | .noticeCancel | .abort _ | .attemptFailed .. => { e with sched }

def step (e : Exec) (event : Event) : Option Exec :=
  match event with
  | .attemptFailed id startedAt attemptStartedAt failure =>
    if id ∈ e.sched.inflight then
      some (x.failAttempt e id startedAt attemptStartedAt failure)
    else none
  | event =>
    (event.sched.bind (e.sched.step x.schedule x.loopOptions)).map fun sched =>
      x.effects e sched event

/-- The scheduling loop with its effects. -/
def loop : StepSystem Exec Event where
  step := x.step

/-! ## After the loop -/

/-- The test results so far. -/
structure TestRuns where
  exec : Exec
  results : List TestResult

/-- The verdict on one planned test: `run_tests`. -/
def testResult (e : Exec) (failed : List String) (test : CompiledTest) : TestResult :=
  if e.sched.cancelled || e.sched.failFast || e.sched.cancelRequested ||
      closing.cancelRequested test.id then
    { test := test.id, status := .cancelled, failure := some .cancelled }
  else if (test.targets.any fun target => !(e.sched.status target).isSatisfied) ||
      test.sources.any (x.isFailedSeed failed) then
    { test := test.id, status := .blocked, failure := some .dependency }
  else
    match closing.tests test.id with
    | .rows 0 => { test := test.id, status := .passed, failure := none }
    | .rows _ => { test := test.id, status := .failed, failure := some .test }
    | .error category => { test := test.id, status := .failed, failure := some category }

/-- The tests of the plan that the options ask for. -/
def testsToRun : List CompiledTest :=
  if x.options.runTests then
    x.compilation.tests.filter fun test =>
      decide (test.id ∈ x.plan.tests.map PlannedTest.id)
  else []

def runTest (failed : List String) (runs : TestRuns) (test : CompiledTest) : TestRuns :=
  let result := x.testResult closing runs.exec failed test
  { exec := runs.exec.write (.recordTest (result.record x.runId (closing.testClock test.id)))
    results := runs.results ++ [result] }

/-- Record the version of a model that passed, unless its target no longer holds
what the run wrote. -/
def recordPassed (e : Exec) (id : ModelId) : Exec :=
  match e.results id, x.compilation.model id with
  | some result, some model =>
    if result.status = .passed ∧
        (result.outputIdentity.isSome → closing.live id = result.outputIdentity) then
      e.write (.recordMaterialized (x.materializedRecord model result.outputIdentity
        x.runId closing.finishedAt))
    else e
  | _, _ => e

/-- Record the load of a seed that passed. -/
def recordLoaded (e : Exec) (result : SeedResult) : Exec :=
  match x.compilation.seed result.seed with
  | some seed =>
    if result.status = .passed then
      e.write (.recordSeed
        { name := seed.name
          environment := x.options.environment
          contentHash := seed.contentHash
          target := result.target
          runId := x.runId
          loadedAt := closing.finishedAt })
    else e
  | none => e

/-- The outcome of a whole run. -/
structure RunResult where
  exec : Exec
  status : ExecutionStatus
  seeds : List SeedResult
  tests : List TestResult

/-- The statuses of the planned models' results. -/
def resultStatuses (e : Exec) : List ExecutionStatus :=
  x.schedule.planned.filterMap fun id => (e.results id).map ModelResult.status

/-- Every status a run's verdict depends on. -/
def verdictStatuses (e : Exec) (seeds : List SeedResult) (tests : List TestResult) :
    List ExecutionStatus :=
  x.resultStatuses e ++ tests.map TestResult.status ++ seeds.map SeedResult.status

def runStatus (e : Exec) (seeds : List SeedResult) (tests : List TestResult) :
    ExecutionStatus :=
  if e.sched.cancelled then .cancelled
  else if .failed ∈ x.verdictStatuses e seeds tests then .failed
  else .passed

/-- Run the tests, record what was materialised and loaded, finish the run. -/
def close (e : Exec) (seeds : List SeedResult) : RunResult :=
  let failed := failedSeedTargets seeds
  let tests := x.testsToRun.foldl (x.runTest closing failed) { exec := e, results := [] }
  let status := x.runStatus tests.exec seeds tests.results
  let failedCount := (x.verdictStatuses tests.exec seeds tests.results).count .failed
  let recorded :=
    (x.schedule.planned.insertionSort (· ≤ ·)).foldl (x.recordPassed closing) tests.exec
  let loaded := seeds.foldl (x.recordLoaded closing) recorded
  { exec := loaded.write (.finishRun x.runId status closing.finishedAt failedCount)
    status
    seeds
    tests := tests.results }

/-- `Runner::execute`, with the loop driven by a list of events. -/
def execute (store : Option Store) (events : List Event) : Option RunResult :=
  (x.loop.run (x.enter opening store) events).bind fun e =>
    if e.sched.phase = .done then
      some (x.close closing e (x.loadSeeds opening store).results)
    else none

end Loop

end Execution

/-! ## Small runs -/

namespace Sample

def row (model : CompiledModel) (action : PlanAction) : PlannedModel where
  id := model.id
  target := model.target.display
  action := action
  reuse := none
  targetExists := true
  fullRebuild := false
  watermark := none
  desiredVersion := model.version.hash
  currentVersion := none

def execution (compilation : Compilation) (rows : List PlannedModel)
    (seeds : List PlannedSeed) (failFast : Bool)
    (hnodup : (rows.map PlannedModel.id).Nodup)
    (hcompiled : ∀ planned ∈ rows, (compilation.model planned.id).isSome = true) :
    Execution where
  compilation := compilation
  plan :=
    { id := "plan", environment := none, adapter := "duckdb", blocked := false, seeds
      models := rows, models_nodup := hnodup, tests := [] }
  options := { environment := none, concurrency := 2, runTests := true, failFast }
  adapterName := "duckdb"
  runId := "run"
  prior := .none
  resume := false
  compiled := hcompiled

def opening : Opening where
  startedAt := "2026-01-01T00:00:00.000000000Z"
  seeds := fun _ =>
    { failedAttempts := [], attemptStartedAt := fun _ => "2026-01-01T00:00:00.000000000Z"
      failed := false, cancelRequested := false
      startedAt := "2026-01-01T00:00:00.000000000Z"
      finishedAt := "2026-01-01T00:00:00.000000000Z" }
  verified := fun _ => none
  now := fun _ => "2026-01-01T00:00:00.000000000Z"

def closing : Closing where
  cancelRequested := fun _ => false
  tests := fun _ => .rows 0
  testClock := fun _ => "2026-01-02T00:00:00.000000000Z"
  live := fun _ => none
  finishedAt := "2026-01-02T00:00:00.000000000Z"

end Sample

end PhloTransform.Engine
