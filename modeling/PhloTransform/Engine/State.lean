import PhloTransform.Core.Version
import PhloTransform.Engine.Clock
import PhloTransform.Engine.Status
import PhloTransform.Library.Table

/-!
# The run-state store

The store keeps run history, the version each environment last materialised,
incremental watermarks and seed loads.  Every write is a single statement; the
three shared tables are written by ordered upserts that drop an older row.

Main results:

- Theorem `Store.watermarkRow_setWatermark_self`: a watermark write is a
  comparison of run generations.
-/

namespace PhloTransform.Engine

open Library (Table)
open Core (ModelVersion)

/-! ## Rows -/

/-- The plan of a run, as persisted with it. -/
structure StoredPlanModel where
  id : String
  target : String
  action : String
  desiredVersion : String
  fullRebuild : Bool
  watermark : Option String
deriving Repr, DecidableEq

structure StoredPlanSeed where
  name : String
  target : String
  action : String
  desiredVersion : String
deriving Repr, DecidableEq

structure StoredPlanTest where
  id : String
  targets : List String
  sources : List String
deriving Repr, DecidableEq

structure StoredPlan where
  planId : String
  environment : Option String
  models : List StoredPlanModel
  seeds : List StoredPlanSeed
  tests : List StoredPlanTest
deriving Repr, DecidableEq

/-- A single run. -/
structure RunRecord where
  runId : String
  planId : String
  environment : Option String
  referenceHash : Option String
  startedAt : String
  finishedAt : Option String
  status : ExecutionStatus
  modelCount : Nat
  failedCount : Nat
deriving Repr, DecidableEq

/-- A run loaded back from the store. -/
structure StoredRun where
  record : RunRecord
  plan : Option StoredPlan
deriving Repr, DecidableEq

/-- One attempt of a model build or a seed load. -/
structure Attempt where
  attempt : Nat
  startedAt : String
  failure : Option FailureCategory
deriving Repr, DecidableEq

/-- A single model execution within a run. -/
structure ModelRunRecord where
  runId : String
  modelId : String
  materialization : String
  action : String
  status : ExecutionStatus
  startedAt : String
  finishedAt : String
  target : String
  desiredVersion : String
  attempts : List Attempt
  errorCategory : Option String
deriving Repr, DecidableEq

/-- A single seed execution within a run. -/
structure SeedRunRecord where
  runId : String
  name : String
  status : ExecutionStatus
  target : String
  attempts : List Attempt
  errorCategory : Option String
  startedAt : String
  finishedAt : String
deriving Repr, DecidableEq

/-- A single test execution within a run. -/
structure TestRunRecord where
  runId : String
  testId : String
  status : ExecutionStatus
  errorCategory : Option String
  startedAt : String
  finishedAt : String
deriving Repr, DecidableEq

/-- The version recorded against a physical materialisation. -/
structure MaterializedRecord where
  modelId : String
  environment : Option String
  version : ModelVersion
  target : String
  incrementalStrategy : Option String
  incrementalKey : Option String
  adapter : Option String
  outputIdentity : Option String
  runId : String
  materializedAt : String
deriving Repr, DecidableEq

/-- A seed load recorded against an environment. -/
structure SeedRecord where
  name : String
  environment : Option String
  contentHash : String
  target : String
  runId : String
  loadedAt : String
deriving Repr, DecidableEq

/-- A row of `incremental_state`. -/
structure WatermarkRow where
  modelId : String
  environment : String
  lastValue : String
  runId : String
  updatedAt : String
deriving Repr, DecidableEq

/-! ## The store -/

/-- The value of an `environment` column; the default environment is `''`. -/
def environmentColumn (environment : Option String) : String :=
  environment.getD ""

/-- An `environment` column read back. -/
def environmentOfColumn (column : String) : Option String :=
  if column = "" then none else some column

/-- What a label reads back as: the empty label is the default environment. -/
def storedEnvironment (environment : Option String) : Option String :=
  environmentOfColumn (environmentColumn environment)

@[simp]
theorem environmentColumn_storedEnvironment (environment : Option String) :
    environmentColumn (storedEnvironment environment) = environmentColumn environment := by
  unfold storedEnvironment environmentOfColumn
  split
  · next h => rw [h]; rfl
  · rfl

def StoredRun.key (run : StoredRun) : String :=
  run.record.runId

def ModelRunRecord.key (record : ModelRunRecord) : String × String :=
  (record.runId, record.modelId)

def SeedRunRecord.key (record : SeedRunRecord) : String × String :=
  (record.runId, record.name)

def TestRunRecord.key (record : TestRunRecord) : String × String :=
  (record.runId, record.testId)

def MaterializedRecord.key (record : MaterializedRecord) : String × String :=
  (record.modelId, environmentColumn record.environment)

def SeedRecord.key (record : SeedRecord) : String × String :=
  (record.name, environmentColumn record.environment)

def WatermarkRow.key (row : WatermarkRow) : String × String :=
  (row.modelId, row.environment)

def StoredRun.reopened (run : StoredRun) : StoredRun :=
  { run with record := { run.record with status := .running, finishedAt := none } }

def StoredRun.finished (status : ExecutionStatus) (finishedAt : String)
    (failedCount : Nat) (run : StoredRun) : StoredRun :=
  { run with record := { run.record with
    status := status, finishedAt := some finishedAt, failedCount := failedCount } }

theorem StoredRun.key_reopened (run : StoredRun) : run.reopened.key = run.key :=
  rfl

theorem StoredRun.key_finished (status : ExecutionStatus) (finishedAt : String)
    (failedCount : Nat) (run : StoredRun) :
    (run.finished status finishedAt failedCount).key = run.key :=
  rfl

/-- A record replaces one that is not newer. -/
def MaterializedRecord.notOlder [Rfc3339] (old new : MaterializedRecord) : Bool :=
  notBefore new.materializedAt old.materializedAt

def SeedRecord.notOlder [Rfc3339] (old new : SeedRecord) : Bool :=
  notBefore new.loadedAt old.loadedAt

structure Store where
  runs : Table StoredRun.key
  modelRuns : Table ModelRunRecord.key
  seedRuns : Table SeedRunRecord.key
  testRuns : Table TestRunRecord.key
  modelVersions : Table MaterializedRecord.key
  incrementalState : Table WatermarkRow.key
  seedLoads : Table SeedRecord.key

namespace Store

variable {store store' : Store} {plan : StoredPlan}

def empty : Store where
  runs := Table.empty
  modelRuns := Table.empty
  seedRuns := Table.empty
  testRuns := Table.empty
  modelVersions := Table.empty
  incrementalState := Table.empty
  seedLoads := Table.empty

/-- `start_run`: insert the run; the id must be new. -/
def startRun (store : Store) (run : RunRecord) (plan : StoredPlan) : Option Store :=
  match store.runs.get? run.runId with
  | some _ => none
  | none => some { store with
      runs := store.runs.put
        { record := { run with environment := storedEnvironment run.environment },
          plan := some plan } }

/-- `reopen_run`: back to running, the original start kept. -/
def reopenRun (store : Store) (runId : String) : Store :=
  { store with
    runs := store.runs.modify runId StoredRun.reopened StoredRun.key_reopened }

def finishRun (store : Store) (runId : String) (status : ExecutionStatus)
    (finishedAt : String) (failedCount : Nat) : Store :=
  { store with
    runs := store.runs.modify runId (StoredRun.finished status finishedAt failedCount)
      (StoredRun.key_finished status finishedAt failedCount) }

def run (store : Store) (runId : String) : Option StoredRun :=
  store.runs.get? runId

/-- `SELECT started_at FROM runs WHERE run_id = ?`. -/
def startedAt (store : Store) (runId : String) : Option String :=
  (store.run runId).map fun run => run.record.startedAt

def recordModel (store : Store) (record : ModelRunRecord) : Store :=
  { store with modelRuns := store.modelRuns.put record }

def recordSeedRun (store : Store) (record : SeedRunRecord) : Store :=
  { store with seedRuns := store.seedRuns.put record }

def recordTest (store : Store) (record : TestRunRecord) : Store :=
  { store with testRuns := store.testRuns.put record }

/-- A model's execution record within a run. -/
def modelRun (store : Store) (runId modelId : String) : Option ModelRunRecord :=
  store.modelRuns.get? (runId, modelId)

/-- A seed's execution record within a run. -/
def seedRun (store : Store) (runId name : String) : Option SeedRunRecord :=
  store.seedRuns.get? (runId, name)

section OrderedUpserts

variable [Rfc3339]

/-- `record_materialized`: dropped when older than the stored record. -/
def recordMaterialized (store : Store) (record : MaterializedRecord) : Store :=
  { store with
    modelVersions := store.modelVersions.upsertWhen
      MaterializedRecord.notOlder
      { record with environment := storedEnvironment record.environment } }

/-- `record_seed`: dropped when older than the stored load. -/
def recordSeed (store : Store) (record : SeedRecord) : Store :=
  { store with
    seedLoads := store.seedLoads.upsertWhen
      SeedRecord.notOlder
      { record with environment := storedEnvironment record.environment } }

/-- The guard of `set_watermark`: the writing run, or the write itself when the
run is unknown, must not be older than the run of the stored row. -/
def acceptsWatermark (store : Store) (old new : WatermarkRow) : Bool :=
  notBefore ((store.startedAt new.runId).getD new.updatedAt)
    ((store.startedAt old.runId).getD "")

/-- `set_watermark`, at the clock reading `now`. -/
def setWatermark (store : Store) (modelId : String) (environment : Option String)
    (value runId now : String) : Store :=
  { store with
    incrementalState := store.incrementalState.upsertWhen store.acceptsWatermark
      { modelId := modelId, environment := environmentColumn environment,
        lastValue := value, runId := runId, updatedAt := now } }

end OrderedUpserts

/-- The materialised version for a model in an environment. -/
def materializedVersion (store : Store) (modelId : String)
    (environment : Option String) : Option MaterializedRecord :=
  store.modelVersions.get? (modelId, environmentColumn environment)

/-- Every materialised model in an environment. -/
def materializedIn (store : Store) (environment : Option String) :
    List MaterializedRecord :=
  store.modelVersions.rows.filter fun record =>
    decide (environmentColumn record.environment = environmentColumn environment)

/-- All materialisations of a given version hash. -/
def materializedByHash (store : Store) (versionHash : String) :
    List MaterializedRecord :=
  store.modelVersions.rows.filter fun record =>
    decide (record.version.hash = versionHash)

/-- Every seed load recorded for an environment. -/
def seedsIn (store : Store) (environment : Option String) : List SeedRecord :=
  store.seedLoads.rows.filter fun record =>
    decide (environmentColumn record.environment = environmentColumn environment)

/-- The seed load recorded for an environment. -/
def seedLoad (store : Store) (name : String) (environment : Option String) :
    Option SeedRecord :=
  store.seedLoads.get? (name, environmentColumn environment)

def watermarkRow (store : Store) (modelId : String)
    (environment : Option String) : Option WatermarkRow :=
  store.incrementalState.get? (modelId, environmentColumn environment)

/-- The last successful watermark for a model in an environment. -/
def watermark (store : Store) (modelId : String)
    (environment : Option String) : Option String :=
  (store.watermarkRow modelId environment).map WatermarkRow.lastValue

/-! ## Run records -/

theorem startedAt_of_startRun {run : RunRecord} (h : store.startRun run plan = some store')
    (runId : String) :
    store'.startedAt runId =
      if run.runId = runId then some run.startedAt else store.startedAt runId := by
  unfold startRun at h
  split at h
  · cases h
  · cases h
    by_cases hid : run.runId = runId <;>
      simp [startedAt, Store.run, Table.get?_put, StoredRun.key, hid]

theorem startRun_eq_some {run : RunRecord} (h : store.startRun run plan = some store') :
    store.run run.runId = none ∧
      store'.incrementalState = store.incrementalState ∧
      store'.modelVersions = store.modelVersions ∧ store'.seedLoads = store.seedLoads := by
  unfold startRun at h
  split at h
  · cases h
  · next hfree =>
      cases h
      exact ⟨hfree, rfl, rfl, rfl⟩

@[simp]
theorem startedAt_reopenRun (store : Store) (runId runId' : String) :
    (store.reopenRun runId).startedAt runId' = store.startedAt runId' := by
  simp only [startedAt, Store.run, reopenRun, Table.get?_modify]
  split
  · cases store.runs.get? runId' <;> rfl
  · rfl

@[simp]
theorem startedAt_finishRun (store : Store) (runId runId' : String)
    (status : ExecutionStatus) (finishedAt : String) (failedCount : Nat) :
    (store.finishRun runId status finishedAt failedCount).startedAt runId' =
      store.startedAt runId' := by
  simp only [startedAt, Store.run, finishRun, Table.get?_modify]
  split
  · cases store.runs.get? runId' <;> rfl
  · rfl

/-! ## Ordered upserts -/

section OrderedUpserts

variable [Rfc3339]

@[simp]
theorem startedAt_setWatermark (store : Store) (modelId : String)
    (environment : Option String) (value runId now runId' : String) :
    (store.setWatermark modelId environment value runId now).startedAt runId' =
      store.startedAt runId' :=
  rfl

theorem watermarkRow_setWatermark_self (store : Store) (modelId : String)
    (environment : Option String) (value runId now : String) :
    (store.setWatermark modelId environment value runId now).watermarkRow modelId
        environment =
      match store.watermarkRow modelId environment with
      | none => some ⟨modelId, environmentColumn environment, value, runId, now⟩
      | some old =>
        if store.acceptsWatermark old
            ⟨modelId, environmentColumn environment, value, runId, now⟩ then
          some ⟨modelId, environmentColumn environment, value, runId, now⟩
        else some old := by
  have hwrite := Table.get?_upsertWhen_self store.acceptsWatermark store.incrementalState
    ⟨modelId, environmentColumn environment, value, runId, now⟩
  simp only [watermarkRow, setWatermark]
  refine hwrite.trans ?_
  simp only [WatermarkRow.key]
  cases store.incrementalState.get? (modelId, environmentColumn environment) <;> rfl

theorem watermarkRow_setWatermark_ne (store : Store) {modelId modelId' : String}
    {environment environment' : Option String} (value runId now : String)
    (h : (modelId, environmentColumn environment) ≠
      (modelId', environmentColumn environment')) :
    (store.setWatermark modelId environment value runId now).watermarkRow modelId'
        environment' = store.watermarkRow modelId' environment' :=
  Table.get?_upsertWhen_ne _ _ h

end OrderedUpserts

end Store
end PhloTransform.Engine
