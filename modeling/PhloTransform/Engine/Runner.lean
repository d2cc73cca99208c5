import PhloTransform.Engine.Execution

/-!
# Applying plans and resuming runs

`apply` executes a plan that is neither blocked nor stale.  `resume` plans an
interrupted run afresh against the current state, carries the verified passes of
the run over, and executes under the original run id.  Both execute the rows of
a fresh plan under an overlay of what is reused.

Main results:

- Theorem `Plan.staleness_eq_none`: what a plan that is not stale agrees on with
  the compilation.
- Theorem `Runner.follows_of_resume`: a resumed run executes a fresh plan under the
  overlay.
-/

namespace PhloTransform.Engine

open Core (Compilation CompiledModel CompiledSeed ModelId Relation seedRelation
  adapterDefaultSchema)

/-- A plan that is not stale names compiled models at their desired versions and
targets. -/
theorem Plan.staleness_eq_none {plan : Plan} {compilation : Compilation} :
    plan.staleness compilation = none ↔ ∀ planned ∈ plan.models, ∃ model,
      compilation.model planned.id = some model ∧
        model.version.hash = planned.desiredVersion ∧ model.target.display = planned.target := by
  unfold Plan.staleness
  rw [List.findSome?_eq_none_iff]
  refine forall₂_congr fun planned _ => ?_
  cases hmodel : compilation.model planned.id with
  | none => simp
  | some model =>
    by_cases hversion : model.version.hash = planned.desiredVersion
    · by_cases htarget : model.target.display = planned.target
      · simp [hversion, htarget]
      · simp [hversion, htarget]
    · simp [hversion]

/-! ## The resume overlay -/

/-- Only a verified earlier pass whose relation is still present carries over. -/
def overlayModel (prior : PriorRun) (planned : PlannedModel) : PlannedModel :=
  if planned.targetExists && prior.reusableModel planned.id planned.desiredVersion then
    { planned with action := .skip }
  else planned

/-- Only a verified earlier load whose relation is still present carries over. -/
def overlaySeed (prior : PriorRun) (storedVersion : String → String)
    (exist : String → Bool) (planned : PlannedSeed) : PlannedSeed :=
  if exist planned.name &&
      prior.reusableSeed planned.name (storedVersion planned.name) planned.desiredVersion then
    { planned with action := .skip }
  else planned

@[simp]
theorem overlayModel_id (prior : PriorRun) (planned : PlannedModel) :
    (overlayModel prior planned).id = planned.id := by
  unfold overlayModel
  split <;> rfl

@[simp]
theorem overlaySeed_name (prior : PriorRun) (storedVersion : String → String)
    (exist : String → Bool) (planned : PlannedSeed) :
    (overlaySeed prior storedVersion exist planned).name = planned.name := by
  unfold overlaySeed
  split <;> rfl

@[simp]
theorem overlaySeed_target (prior : PriorRun) (storedVersion : String → String)
    (exist : String → Bool) (planned : PlannedSeed) :
    (overlaySeed prior storedVersion exist planned).target = planned.target := by
  unfold overlaySeed
  split <;> rfl

theorem map_overlayModel_id (prior : PriorRun) (models : List PlannedModel) :
    (models.map (overlayModel prior)).map PlannedModel.id = models.map PlannedModel.id := by
  rw [List.map_map]
  exact List.map_congr_left fun planned _ => overlayModel_id prior planned

/-! ## What both calls execute -/

/-- The run executes the rows a fresh plan decides, under the overlay. -/
structure Execution.Follows [Rfc3339] (x : Execution) (p : Planning)
    (exist : Relation → Bool) : Prop where
  compilation : x.compilation = p.compilation
  ok : p.compilation.isOk = true
  adapterName : x.adapterName = p.view.name
  probed : p.view.relationsExist = some exist
  missing : p.missingExcluded exist = none
  models : x.plan.models = (p.orderModels.map (p.plannedModel exist)).map
    (overlayModel x.prior)
  seeds : ∃ storedVersion present, x.plan.seeds =
    (p.neededSeeds.map (p.plannedSeed exist)).map (overlaySeed x.prior storedVersion present)

theorem Planning.compiled_of_plannedModel [Rfc3339] {p : Planning} {exist : Relation → Bool}
    {planned : PlannedModel} (h : planned ∈ p.orderModels.map (p.plannedModel exist)) :
    (p.compilation.model planned.id).isSome = true := by
  obtain ⟨model, hmodel, rfl⟩ := List.mem_map.1 h
  have hmem := Planning.mem_compilation_of_mem_orderModels hmodel
  simp [plannedModel, Compilation.model_of_mem hmem]

namespace Runner

/-! ## Applying a plan -/

/-- What `apply` executes. -/
def apply (compilation : Compilation) (plan : Plan) (options : RunOptions)
    (adapterName runId : String) : Except EngineError Execution :=
  if plan.blocked then .error .compilation
  else
    match hstale : plan.staleness compilation with
    | some reason => .error (.stalePlan reason)
    | none => .ok
        { compilation, plan, options, adapterName, runId
          prior := .none
          resume := false
          compiled := by
            intro planned hplanned
            obtain ⟨model, hmodel, -⟩ := Plan.staleness_eq_none.1 hstale planned hplanned
            simp [hmodel] }

theorem apply_eq_ok {compilation : Compilation} {plan : Plan} {options : RunOptions}
    {adapterName runId : String} {x : Execution}
    (h : apply compilation plan options adapterName runId = .ok x) :
    plan.blocked = false ∧ x.compilation = compilation ∧ x.plan = plan ∧
      x.options = options ∧ x.adapterName = adapterName ∧ x.runId = runId ∧
      x.prior = .none ∧ x.resume = false := by
  unfold apply at h
  split at h
  · cases h
  · next hblocked =>
      split at h
      · cases h
      · cases h
        exact ⟨by simpa using hblocked, rfl, rfl, rfl, rfl, rfl, rfl, rfl⟩

/-! ## Resuming a run -/

def shortId (runId : String) : String :=
  if 8 ≤ runId.length then String.ofList (runId.toList.take 8) else runId

/-- `Selection::of`: exactly these models, in topological order. -/
def selectionOf (compilation : Compilation) (ids : List ModelId) : Selection where
  members :=
    match compilation.topologicalOrder with
    | some order => order.filter fun id => decide (id ∈ ids)
    | none => ids.dedup.insertionSort (· ≤ ·)
  excluded := []

def incompatible (runId detail : String) : EngineError :=
  .invalidPlan ("run " ++ shortId runId ++ " is incompatible with the workspace: " ++ detail)

/-- The models of the run's stored plan, each of which must still exist. -/
def manifestIds (compilation : Compilation) (runId : String) :
    List StoredPlanModel → Except EngineError (List ModelId)
  | [] => .ok []
  | stored :: rest =>
    match ModelId.parse stored.id with
    | .error error => .error (.invalidPlan error.message)
    | .ok id =>
      if (compilation.model id).isSome then
        (manifestIds compilation runId rest).map (id :: ·)
      else .error (incompatible runId ("model `" ++ stored.id ++ "` no longer exists"))

/-- A seed of the run's stored plan that no longer exists. -/
def missingSeed (compilation : Compilation) (manifest : StoredPlan) :
    Option StoredPlanSeed :=
  manifest.seeds.find? fun stored => (compilation.seed stored.name).isNone

/-- The text of an optional label in a message. -/
def debugLabel : Option String → String
  | some label => "Some(\"" ++ label ++ "\")"
  | none => "None"

/-- Why a stored run is not resumed, apart from its models. -/
def resumeRefusal (runId : String) (stored : StoredRun) (options : RunOptions) :
    Option EngineError :=
  if stored.record.status = .passed then
    some (.invalidPlan ("run " ++ shortId runId ++ " already passed — nothing to resume"))
  else if stored.record.status = .failed then
    some (.invalidPlan ("run " ++ shortId runId ++
      " already finished — retry its failed work with `--retry-failed`"))
  else if options.environment ≠ stored.record.environment then
    some (.invalidPlan ("run " ++ shortId runId ++ " targeted environment " ++
      debugLabel stored.record.environment ++ "; refusing to resume into " ++
      debugLabel options.environment))
  else none

def priorRun (store : Store) (runId : String) : PriorRun where
  models := store.modelRun runId
  seeds := store.seedRun runId

/-- What the fresh plan of a resumed run reads. -/
def resumePlanning (store : Store) (compilation : Compilation) (view : AdapterView)
    (options : RunOptions) (ids : List ModelId) : Planning where
  compilation := compilation
  selection := selectionOf compilation ids
  environment := options.environment
  force := false
  view := view
  store := some store

/-- The version of a seed in the run's stored plan. -/
def storedSeedVersion (manifest : StoredPlan) (name : String) : String :=
  ((manifest.seeds.find? fun stored => decide (stored.name = name)).map
    StoredPlanSeed.desiredVersion).getD ""

/-- The relation of a planned seed is present. -/
def seedPresent (compilation : Compilation) (adapterName : String)
    (exist : Relation → Bool) (name : String) : Bool :=
  match compilation.seed name with
  | some seed => exist (seedRelation seed compilation.defaults.catalog
      (compilation.defaults.schema.or (adapterDefaultSchema adapterName)) adapterName)
  | none => false

/-- `resume_plan`: a fresh plan under the overlay of what is reused. -/
def resumePlan (compilation : Compilation) (stored : StoredRun) (manifest : StoredPlan)
    (prior : PriorRun) (adapterName : String) (seedsExist : Relation → Bool) (fresh : Plan) :
    Plan where
  id := stored.record.planId
  environment := stored.record.environment
  adapter := fresh.adapter
  blocked := fresh.blocked
  seeds := fresh.seeds.map (overlaySeed prior (storedSeedVersion manifest)
    (seedPresent compilation adapterName seedsExist))
  models := fresh.models.map (overlayModel prior)
  models_nodup := by
    rw [map_overlayModel_id]
    exact fresh.models_nodup
  tests := fresh.tests

section Resume

variable [Rfc3339]

/-- What `resume` executes; `none` for the seeds is a failed probe. -/
def resume (store : Store) (compilation : Compilation) (view : AdapterView)
    (seedsExist : Option (Relation → Bool)) (options : RunOptions) (runId : String) :
    Except EngineError Execution :=
  if !compilation.isOk then .error .compilation
  else
    match store.run runId with
    | none => .error (.invalidPlan ("no run `" ++ runId ++ "`"))
    | some stored =>
      match stored.plan with
      | none => .error (.invalidPlan ("run " ++ shortId runId ++
          " predates resumable run state; rerun its failed work with `--retry-failed`"))
      | some manifest =>
        match resumeRefusal runId stored options with
        | some error => .error error
        | none =>
          match manifestIds compilation runId manifest.models,
            missingSeed compilation manifest with
          | .error error, _ => .error error
          | .ok _, some missing => .error (incompatible runId
              ("seed `" ++ missing.name ++ "` no longer exists"))
          | .ok ids, none =>
            match hplan : (resumePlanning store compilation view options ids).plan "",
              seedsExist with
            | .error error, _ => .error error
            | .ok _, none => .error .adapter
            | .ok fresh, some exist => .ok
                { compilation, options, runId
                  plan := resumePlan compilation stored manifest
                    (priorRun store runId) view.name exist fresh
                  adapterName := view.name
                  prior := priorRun store runId
                  resume := true
                  compiled := by
                    obtain ⟨_, -, -, -, -, hmodels, -, -⟩ :=
                      Planning.plan_eq_ok hplan
                    simp only [resumePlan, List.mem_map, hmodels]
                    rintro planned ⟨row, ⟨model, hmodel, rfl⟩, rfl⟩
                    rw [overlayModel_id]
                    exact Planning.compiled_of_plannedModel
                      (List.mem_map_of_mem hmodel) }

/-- A resumed run executes a fresh plan of the current state under the overlay of
its own records. -/
theorem follows_of_resume {store : Store} {compilation : Compilation} {view : AdapterView}
    {seedsExist : Option (Relation → Bool)} {options : RunOptions} {runId : String} {x : Execution}
    (h : resume store compilation view seedsExist options runId = .ok x) :
    ∃ ids exist, x.Follows (resumePlanning store compilation view options ids) exist ∧
      x.options = options ∧ x.runId = runId ∧ x.prior = priorRun store runId := by
  unfold resume at h
  split at h
  · cases h
  · next hok =>
      split at h
      · cases h
      · split at h
        · cases h
        · split at h
          · cases h
          · split at h
            · cases h
            · cases h
            · next ids _ _ =>
                split at h
                · cases h
                · cases h
                · next fresh seeds hplan =>
                    obtain ⟨exist, hexist, hmissing, -, -, hmodels, hseeds, -⟩ :=
                      Planning.plan_eq_ok hplan
                    cases h
                    have hok' : compilation.isOk = true := by simpa using hok
                    exact ⟨ids, exist, ⟨rfl, hok', rfl, hexist, hmissing,
                      congrArg (List.map _) hmodels, _, _,
                      congrArg (List.map _) hseeds⟩, rfl, rfl, rfl⟩

end Resume

end Runner

/-! ## Small plans -/

namespace Sample

/-- Planning some models of a workspace for the default environment over DuckDB,
where every relation exists and nothing is recorded. -/
def planning (compilation : Compilation) (members : List ModelId) : Planning where
  compilation := compilation
  selection := { members := members, excluded := [] }
  environment := none
  force := false
  view :=
    { name := "duckdb"
      relationsExist := some fun _ => true
      outputIdentity := fun _ => none
      schemaForcesRebuild := fun _ => false }
  store := some Store.empty

end Sample

end PhloTransform.Engine
