import PhloTransform.Core.Compiled
import PhloTransform.Engine.Evidence

/-!
# State-aware plans

The planner closes the selection over its dependencies, probes which relations
exist, reads the recorded evidence, and decides for every model and seed whether
it is built, skipped or adopted.  The adapter's answers are parameters.

Main results:

- Theorem `Planner.decide_skip_iff`: when a model is skipped.
- Theorem `Planner.cached_of_decide`: what adopting a model rests on.
-/

namespace PhloTransform.Engine

open Core (Compilation CompiledModel CompiledSeed CompiledTest ModelId Relation SourceId
  adapterDefaultSchema relationForSource seedForRelation seedRelation)

/-! ## Plans -/

/-- The recorded materialisation a cached action reuses. -/
structure CacheSource where
  environment : Option String
  target : String
  outputIdentity : String
  runId : String
  materializedAt : String
deriving Repr, DecidableEq

def CacheSource.fromRecord (record : MaterializedRecord) : CacheSource where
  environment := record.environment
  target := record.target
  outputIdentity := record.outputIdentity.getD ""
  runId := record.runId
  materializedAt := record.materializedAt

/-- A model in a plan. -/
structure PlannedModel where
  id : ModelId
  target : String
  action : PlanAction
  reuse : Option CacheSource
  targetExists : Bool
  fullRebuild : Bool
  watermark : Option String
  desiredVersion : String
  currentVersion : Option String
deriving DecidableEq

/-- A seed in a plan. -/
structure PlannedSeed where
  name : String
  target : String
  action : PlanAction
  desiredVersion : String
deriving Repr, DecidableEq

/-- A test in a plan. -/
structure PlannedTest where
  id : String
  targets : List String
  sources : List String
deriving Repr, DecidableEq

/-- A plan names every model at most once. -/
structure Plan where
  id : String
  environment : Option String
  adapter : String
  blocked : Bool
  seeds : List PlannedSeed
  models : List PlannedModel
  models_nodup : (models.map PlannedModel.id).Nodup
  tests : List PlannedTest

inductive EngineError where
  | adapter
  | compilation
  | notConfigured (message : String)
  | notFound (message : String)
  | state (message : String)
  | artifact (message : String)
  | invalidPlan (message : String)
  | stalePlan (reason : String)
  | promotion (message : String)
  | environment (message : String)
deriving Repr, DecidableEq

/-- Why the plan no longer matches a compiled workspace, if it does not. -/
def Plan.staleness (plan : Plan) (compilation : Compilation) : Option String :=
  plan.models.findSome? fun planned =>
    match compilation.model planned.id with
    | none => some ("model `" ++ planned.id.logicalName ++ "` no longer exists")
    | some compiled =>
      if compiled.version.hash ≠ planned.desiredVersion then
        some ("model `" ++ planned.id.logicalName ++ "` changed since the plan was created")
      else if compiled.target.display ≠ planned.target then
        some ("model `" ++ planned.id.logicalName ++
          "` target changed since the plan was created (`" ++ planned.target ++ "` -> `" ++
          compiled.target.display ++ "`)")
      else none

/-! ## Deciding one model -/

/-- The planner's verdict for one model. -/
structure Decision where
  action : PlanAction
  reuse : Option CacheSource
deriving Repr, DecidableEq

def Decision.build : Decision where
  action := .build
  reuse := none

/-- What was fetched about one model before it is decided. -/
structure ModelEvidence where
  targetExists : Bool
  current : Option MaterializedRecord
  elsewhere : List MaterializedRecord
  liveOutput : Option String

/-- A recorded target and a compiled one agree on schema and table. -/
def sameContentSlot (recorded : String) (target : Relation) : Bool :=
  match Relation.parse recorded with
  | some recorded =>
    decide (recorded.schema = target.schema) && decide (recorded.table = target.table)
  | none => false

/-- Cache candidates: the default environment first, then `main`. -/
def envRank : Option String → Nat
  | none => 0
  | some environment => if environment = "main" then 1 else 2

/-- The order of cache candidates: by rank, then latest first. -/
def CandidateLE (a b : MaterializedRecord) : Prop :=
  envRank a.environment < envRank b.environment ∨
    envRank a.environment = envRank b.environment ∧ b.materializedAt ≤ a.materializedAt

instance (a b : MaterializedRecord) : Decidable (CandidateLE a b) :=
  inferInstanceAs (Decidable (_ ∨ _))

/-- A record of another environment that this adapter could adopt. -/
def isCandidate (adapterName : String) (environment : Option String) (target : Relation)
    (record : MaterializedRecord) : Bool :=
  decide (record.environment ≠ environment) && decide (record.adapter = some adapterName) &&
    record.outputIdentity.isSome && sameContentSlot record.target target

/-- The cache candidates for a model, best first. -/
def cacheCandidates (adapterName : String) (environment : Option String) (target : Relation)
    (elsewhere : List MaterializedRecord) : List MaterializedRecord :=
  (elsewhere.filter (isCandidate adapterName environment target)).insertionSort CandidateLE

/-- `Planner::decide`. -/
def Planner.decide (adapterName : String) (hasState force : Bool) (environment : Option String)
    (model : CompiledModel) (evidence : ModelEvidence) : Decision :=
  if force then .build
  else if !evidence.targetExists then .build
  else
    match evidence.current with
    | none =>
      if hasState then
        match (cacheCandidates adapterName environment model.target
            evidence.elsewhere).find?
              fun record => record.outputIdentity == evidence.liveOutput with
        | some hit => { action := .cached, reuse := some (.fromRecord hit) }
        | none => .build
      else .build
    | some current =>
      if current.adapter ≠ some adapterName then .build
      else if current.target = model.target.display then
        if current.outputIdentity.isSome ∧ evidence.liveOutput ≠ current.outputIdentity then
          .build
        else if current.version.hash = model.version.hash then
          { action := .skip, reuse := none }
        else .build
      else if current.version.hash = model.version.hash then
        if current.outputIdentity.isSome ∧ evidence.liveOutput = current.outputIdentity then
          { action := .cached, reuse := some (.fromRecord current) }
        else .build
      else .build

/-- `Planner::decide_seed`. -/
def Planner.decideSeed (force : Bool) (seed : CompiledSeed) (target : String) (targetExists : Bool)
    (current : Option SeedRecord) : PlanAction :=
  if force then .build
  else if !targetExists then .build
  else
    match current with
    | some record =>
      if record.contentHash = seed.contentHash ∧ record.target = target then .skip
      else .build
    | none => .build

namespace Planner

variable {adapterName : String} {hasState force : Bool} {environment : Option String}
  {model : CompiledModel} {evidence : ModelEvidence}

/-- A model is skipped exactly when the environment's record is of the desired
version, of this target and adapter, and not contradicted by a live identity. -/
theorem decide_skip_iff :
    (Planner.decide adapterName hasState force environment model evidence).action = .skip ↔
      force = false ∧ evidence.targetExists = true ∧ ∃ record,
        evidence.current = some record ∧ record.adapter = some adapterName ∧
          record.target = model.target.display ∧
          (record.outputIdentity.isSome → evidence.liveOutput = record.outputIdentity) ∧
          record.version.hash = model.version.hash := by
  unfold Planner.decide
  cases force with
  | true => simp [Decision.build]
  | false =>
    cases evidence.targetExists with
    | false => simp [Decision.build]
    | true =>
      cases hcurrent : evidence.current with
      | none =>
        simp only [Bool.false_eq_true, if_false, Bool.not_true]
        split
        · split <;> simp [Decision.build]
        · simp [Decision.build]
      | some record =>
        simp only [Bool.false_eq_true, if_false, Bool.not_true]
        split_ifs with hadapter htarget hdrift hversion hversion hlive <;>
          simp_all [Decision.build]

theorem mem_cacheCandidates {target : Relation} {elsewhere : List MaterializedRecord}
    {record : MaterializedRecord} :
    record ∈ cacheCandidates adapterName environment target elsewhere ↔
      record ∈ elsewhere ∧ isCandidate adapterName environment target record = true := by
  simp [cacheCandidates]

/-- A record the planner may adopt for a model: this adapter produced it at the
desired version, and the target reported its output identity. -/
structure Adoptable (adapterName : String) (evidence : ModelEvidence)
    (record : MaterializedRecord) : Prop where
  adapter : record.adapter = some adapterName
  identity : record.outputIdentity.isSome = true
  live : evidence.liveOutput = record.outputIdentity

/-- What adopting a model rests on: a record of another environment in the same
content slot, or the environment's own record of another target. -/
theorem cached_of_decide
    (h : (Planner.decide adapterName hasState force environment model evidence).action =
      .cached) :
    evidence.targetExists = true ∧ ∃ record, Adoptable adapterName evidence record ∧
      (Planner.decide adapterName hasState force environment model evidence).reuse =
        some (.fromRecord record) ∧
      (evidence.current = none ∧ record ∈ evidence.elsewhere ∧
          record.environment ≠ environment ∧
          sameContentSlot record.target model.target = true ∨
        evidence.current = some record ∧ record.version.hash = model.version.hash ∧
          record.target ≠ model.target.display) := by
  unfold Planner.decide at h ⊢
  cases force with
  | true => simp [Decision.build] at h
  | false =>
    cases htarget : evidence.targetExists with
    | false => simp [htarget, Decision.build] at h
    | true =>
      simp only [htarget, Bool.false_eq_true, if_false, Bool.not_true] at h ⊢
      refine ⟨trivial, ?_⟩
      cases hcurrent : evidence.current with
      | none =>
        cases hasState with
        | false => simp [hcurrent, Decision.build] at h
        | true =>
          simp only [hcurrent, if_true] at h ⊢
          split at h
          · next record hhit =>
              have hmem := mem_cacheCandidates.1 (List.mem_of_find?_eq_some hhit)
              have hlive : record.outputIdentity = evidence.liveOutput := by
                simpa using List.find?_some hhit
              obtain ⟨hmem, hcandidate⟩ := hmem
              simp only [isCandidate, Bool.and_eq_true, decide_eq_true_eq]
                at hcandidate
              obtain ⟨⟨⟨henv, hadapter⟩, hidentity⟩, hslot⟩ := hcandidate
              refine ⟨record, ⟨hadapter, hidentity, hlive.symm⟩, rfl, ?_⟩
              exact Or.inl ⟨trivial, hmem, henv, hslot⟩
          · simp [Decision.build] at h
      | some record =>
        simp only [hcurrent] at h ⊢
        by_cases hadapter : record.adapter = some adapterName
        · by_cases hsame : record.target = model.target.display
          · simp only [hadapter, hsame, ne_eq, not_true, if_false, if_true] at h
            split at h
            · simp [Decision.build] at h
            · split at h <;> simp [Decision.build] at h
          · by_cases hversion : record.version.hash = model.version.hash
            · by_cases hlive : record.outputIdentity.isSome ∧
                evidence.liveOutput = record.outputIdentity
              · refine ⟨record, ⟨hadapter, hlive.1, hlive.2⟩, ?_,
                  Or.inr ⟨rfl, hversion, hsame⟩⟩
                simp [hadapter, hsame, hversion, hlive.1, hlive.2]
              · simp [hadapter, hsame, hversion, hlive, Decision.build] at h
            · simp [hadapter, hsame, hversion, Decision.build] at h
        · simp [hadapter, Decision.build] at h

end Planner

/-! ## Planning -/

/-- The adapter's answers while a plan is made; `none` is a failed probe. -/
structure AdapterView where
  name : String
  relationsExist : Option (Relation → Bool)
  outputIdentity : Relation → Option String
  /-- The live columns of an existing target demand a full rebuild. -/
  schemaForcesRebuild : CompiledModel → Bool

/-- The selected models and the excluded ones. -/
structure Selection where
  members : List ModelId
  excluded : List ModelId

/-- Follow dependencies from a stack of models, never into excluded ones. -/
def closeOver (compilation : Compilation) (excluded : List ModelId) :
    Nat → List ModelId → List ModelId → List ModelId
  | 0, included, _ => included
  | _ + 1, included, [] => included
  | fuel + 1, included, id :: frontier =>
    let new := (compilation.modelDependencies id).filter fun dependency =>
      decide (dependency ∉ excluded) && decide (dependency ∉ included)
    closeOver compilation excluded fuel (included ++ new) (new.reverse ++ frontier)

/-- Dependency closure that never pulls excluded models back in, sorted.  Every
round takes one model off the stack, and a model is pushed once. -/
def dependencyClosureExcluding (compilation : Compilation)
    (selected excluded : List ModelId) : List ModelId :=
  let fuel := selected.length +
    (compilation.models.flatMap CompiledModel.modelDependencies).length
  (closeOver compilation excluded fuel selected.dedup
    selected.dedup.reverse).insertionSort (· ≤ ·)

theorem closeOver_nodup (compilation : Compilation) (excluded : List ModelId) (fuel : Nat)
    {included : List ModelId} (h : included.Nodup) (frontier : List ModelId) :
    (closeOver compilation excluded fuel included frontier).Nodup := by
  induction fuel generalizing included frontier with
  | zero => exact h
  | succ fuel ih =>
    cases frontier with
    | nil => exact h
    | cons id frontier =>
      refine ih (List.nodup_append.2 ⟨h,
        (compilation.modelDependencies_nodup id).filter _, ?_⟩) _
      rintro a ha b hb rfl
      simp [ha] at hb

theorem dependencyClosureExcluding_nodup (compilation : Compilation)
    (selected excluded : List ModelId) :
    (dependencyClosureExcluding compilation selected excluded).Nodup :=
  (List.perm_insertionSort _ _).nodup_iff.2
    (closeOver_nodup compilation excluded _ (List.nodup_dedup selected) _)

/-- What one call of `Planner::plan` reads. -/
structure Planning where
  compilation : Compilation
  selection : Selection
  environment : Option String
  force : Bool
  view : AdapterView
  store : Option Store

namespace Planning

variable (p : Planning)

/-- Compilation errors block the plan; no evidence is read then. -/
def blocked : Bool :=
  !p.compilation.isOk

def plannedIds : List ModelId :=
  dependencyClosureExcluding p.compilation p.selection.members p.selection.excluded

/-- The model is compiled and produces a relation. -/
def isPlannable (id : ModelId) : Bool :=
  match p.compilation.model id with
  | some model => decide (model.config.materialization ≠ .ephemeral)
  | none => false

/-- The planned models, dependencies first. -/
def order : List ModelId :=
  (p.compilation.topologicalOrder.getD p.plannedIds).filter fun id =>
    decide (id ∈ p.plannedIds) && p.isPlannable id

def defaultSchema : Option String :=
  p.compilation.defaults.schema.or (adapterDefaultSchema p.view.name)

def seedTarget (seed : CompiledSeed) : Relation :=
  seedRelation seed p.compilation.defaults.catalog p.defaultSchema p.view.name

/-- The sources of the planned models, and of the tests all of whose targets are
planned. -/
def seedSources : List SourceId :=
  p.plannedIds.flatMap p.compilation.sourceDependencies ++
    (p.compilation.tests.filter fun test =>
      test.targets.all fun target => decide (target ∈ p.plannedIds)).flatMap
        CompiledTest.sources

/-- The seeds behind those sources, by name. -/
def neededSeeds : List CompiledSeed :=
  (p.compilation.seeds.filter fun seed =>
    p.seedSources.any fun source =>
      decide (seedForRelation p.compilation.seeds
        (relationForSource source p.compilation.defaults.catalog p.defaultSchema)
        p.compilation.defaults.catalog p.defaultSchema p.view.name = some seed)).insertionSort
    fun a b => a.name ≤ b.name

/-- The planned models that read an excluded model, with that model. -/
def excludedReads : List (ModelId × CompiledModel) :=
  p.plannedIds.flatMap fun id =>
    (p.compilation.modelDependencies id).filterMap fun dependency =>
      if dependency ∈ p.selection.excluded then
        match p.compilation.model dependency with
        | some excluded =>
          if excluded.config.materialization = .ephemeral then none
          else some (id, excluded)
        | none => none
      else none

def orderModels : List CompiledModel :=
  p.order.filterMap p.compilation.model

theorem order_nodup : p.order.Nodup := by
  refine List.Nodup.filter _ ?_
  cases horder : p.compilation.topologicalOrder with
  | none => exact dependencyClosureExcluding_nodup _ _ _
  | some order => exact p.compilation.graph.topologicalOrder_nodup horder

theorem orderModels_id : p.orderModels.map CompiledModel.id = p.order := by
  rw [orderModels, List.map_filterMap]
  have hsome : ∀ id ∈ p.order,
      (p.compilation.model id).map CompiledModel.id = some id := by
    intro id hid
    have hplannable : p.isPlannable id = true := by
      have := (List.mem_filter.1 hid).2
      simp only [Bool.and_eq_true] at this
      exact this.2
    unfold isPlannable at hplannable
    cases hmodel : p.compilation.model id with
    | none => simp [hmodel] at hplannable
    | some model => simp [Compilation.id_of_model hmodel]
  rw [List.filterMap_congr hsome, List.filterMap_some]

variable {p} in
theorem mem_compilation_of_mem_orderModels {model : CompiledModel}
    (h : model ∈ p.orderModels) : model ∈ p.compilation.models := by
  obtain ⟨id, -, hid⟩ := List.mem_filterMap.1 h
  exact Compilation.mem_of_model hid

/-- The relations whose existence is probed. -/
def probeRelations : List Relation :=
  if p.blocked then []
  else
    p.excludedReads.map (fun read => read.2.target) ++ p.neededSeeds.map p.seedTarget ++
      p.orderModels.map CompiledModel.target

/-- The probed answer for a display form; the first relation of that form
answers for all of them. -/
def existsAt (exist : Relation → Bool) (display : String) : Bool :=
  match p.probeRelations.find? fun relation =>
      decide (relation.display = display) with
  | some relation => exist relation
  | none => false

section Evidence

variable [Rfc3339]

/-- The recorded materialisation of a model in the environment's scope. -/
def materialized (modelId : String) : Option MaterializedRecord :=
  if p.blocked then none
  else p.store.bind fun store => materializedScope store p.environment modelId

/-- The recorded load of a seed in the environment's scope. -/
def recordedSeed (name : String) : Option SeedRecord :=
  if p.blocked then none
  else p.store.bind fun store => seedsScope store p.environment name

/-- The version hashes looked up for cache candidates. -/
def cacheHashes (exist : Relation → Bool) : List String :=
  (p.orderModels.filter fun model =>
    (p.materialized model.id.logicalName).isNone && p.existsAt exist model.target.display).map
      fun model => model.version.hash

/-- The records of a version hash, when it was looked up. -/
def byHash (exist : Relation → Bool) (versionHash : String) : List MaterializedRecord :=
  match p.store with
  | some store =>
    if versionHash ∈ p.cacheHashes exist then store.materializedByHash versionHash else []
  | none => []

/-- The model's live output identity is read. -/
def wantsOutput (exist : Relation → Bool) (model : CompiledModel) : Bool :=
  match p.materialized model.id.logicalName with
  | some record => record.outputIdentity.isSome
  | none =>
    p.existsAt exist model.target.display &&
      (p.byHash exist model.version.hash).any
        (isCandidate p.view.name p.environment model.target)

/-- The live output identity read for a display form; the last relation of that
form answers. -/
def liveOutput (exist : Relation → Bool) (display : String) : Option String :=
  ((p.orderModels.filter (p.wantsOutput exist)).map CompiledModel.target).reverse.find?
      (fun relation => decide (relation.display = display)) |>.bind
    p.view.outputIdentity

def evidence (exist : Relation → Bool) (model : CompiledModel) : ModelEvidence where
  targetExists := p.existsAt exist model.target.display
  current := p.materialized model.id.logicalName
  elsewhere := p.byHash exist model.version.hash
  liveOutput := p.liveOutput exist model.target.display

def decideModel (exist : Relation → Bool) (model : CompiledModel) : Decision :=
  if p.blocked then { action := .unknown, reuse := none }
  else Planner.decide p.view.name p.store.isSome p.force p.environment model (p.evidence exist model)

/-- A changed incremental strategy or key, or no record to compare with. -/
def incrementalChanged (model : CompiledModel) : Bool :=
  match p.materialized model.id.logicalName with
  | some record =>
    decide (record.incrementalStrategy ≠ model.incrementalStrategy) ||
      decide (record.incrementalKey ≠ model.incrementalKey)
  | none => true

def plannedModel (exist : Relation → Bool) (model : CompiledModel) : PlannedModel :=
  let decision := p.decideModel exist model
  let targetExists := !p.blocked && p.existsAt exist model.target.display
  { id := model.id
    target := model.target.display
    action := decision.action
    reuse := decision.reuse
    targetExists
    fullRebuild := decide (decision.action = .build) &&
      (decide (model.config.materialization = .incremental) &&
          p.incrementalChanged model ||
        targetExists && p.view.schemaForcesRebuild model)
    watermark := if model.isTimeWindow then
        p.store.bind fun store => store.watermark model.id.logicalName p.environment
      else none
    desiredVersion := model.version.hash
    currentVersion := (p.materialized model.id.logicalName).map fun record =>
      record.version.hash }

def plannedSeed (exist : Relation → Bool) (seed : CompiledSeed) : PlannedSeed :=
  let target := (p.seedTarget seed).display
  { name := seed.name
    target
    action := if p.blocked then .unknown
      else Planner.decideSeed p.force seed target (p.existsAt exist target) (p.recordedSeed seed.name)
    desiredVersion := seed.contentHash }

def plannedTests : List PlannedTest :=
  (p.compilation.tests.filter fun test =>
    test.targets.all fun target => decide (target ∈ p.plannedIds)).map fun test =>
      { id := test.id
        targets := test.targets.map ModelId.logicalName
        sources := test.sources.map SourceId.logicalName }

theorem models_nodup (exist : Relation → Bool) :
    ((p.orderModels.map (p.plannedModel exist)).map PlannedModel.id).Nodup := by
  have hids : (p.orderModels.map (p.plannedModel exist)).map PlannedModel.id = p.order := by
    rw [List.map_map]
    exact p.orderModels_id
  rw [hids]
  exact p.order_nodup

/-- A read of an excluded model that has never been materialised. -/
def missingExcluded (exist : Relation → Bool) : Option (ModelId × CompiledModel) :=
  if p.blocked then none
  else p.excludedReads.find? fun read => !p.existsAt exist read.2.target.display

/-- `Planner::plan`. -/
def plan (planId : String) : Except EngineError Plan :=
  match p.view.relationsExist with
  | none => .error .adapter
  | some exist =>
    match p.missingExcluded exist with
    | some (id, excluded) =>
      .error (.invalidPlan (id.logicalName ++ " depends on excluded model " ++
        excluded.id.logicalName ++ ", and " ++ excluded.target.display ++
        " has never been materialised"))
    | none => .ok
        { id := planId
          environment := p.environment
          adapter := p.view.name
          blocked := p.blocked
          seeds := p.neededSeeds.map (p.plannedSeed exist)
          models := p.orderModels.map (p.plannedModel exist)
          models_nodup := p.models_nodup exist
          tests := p.plannedTests }

/-! ## What a plan consists of -/

variable {p} {planId : String} {plan : Plan}

/-- A plan comes from answered probes and leaves no excluded read missing. -/
theorem plan_eq_ok (h : p.plan planId = .ok plan) :
    ∃ exist, p.view.relationsExist = some exist ∧ p.missingExcluded exist = none ∧
      plan.environment = p.environment ∧ plan.blocked = p.blocked ∧
      plan.models = p.orderModels.map (p.plannedModel exist) ∧
      plan.seeds = p.neededSeeds.map (p.plannedSeed exist) ∧ plan.tests = p.plannedTests := by
  unfold Planning.plan at h
  cases hexist : p.view.relationsExist with
  | none => simp [hexist] at h
  | some exist =>
    simp only [hexist] at h
    cases hmissing : p.missingExcluded exist with
    | some read => simp [hmissing] at h
    | none =>
      simp only [hmissing, Except.ok.injEq] at h
      subst h
      exact ⟨exist, rfl, hmissing, rfl, rfl, rfl, rfl, rfl⟩

/-- Without errors, a planned model's live identity is the one its own target
reports. -/
theorem liveOutput_eq (hok : p.compilation.isOk = true) (exist : Relation → Bool)
    {model : CompiledModel} (hmodel : model ∈ p.orderModels) :
    p.liveOutput exist model.target.display =
      if p.wantsOutput exist model then p.view.outputIdentity model.target else none := by
  have huniq : ∀ other ∈ p.orderModels,
      other.target.display = model.target.display → other = model := fun other hother h =>
    Compilation.eq_of_display_eq hok (mem_compilation_of_mem_orderModels hother)
      (mem_compilation_of_mem_orderModels hmodel) h
  unfold liveOutput
  cases hwants : p.wantsOutput exist model with
  | true =>
    have hmem : model.target ∈
        ((p.orderModels.filter (p.wantsOutput exist)).map CompiledModel.target).reverse :=
      List.mem_reverse.2 (List.mem_map_of_mem (List.mem_filter.2 ⟨hmodel, hwants⟩))
    cases hfind : ((p.orderModels.filter (p.wantsOutput exist)).map
        CompiledModel.target).reverse.find?
          fun relation => decide (relation.display = model.target.display) with
    | none =>
      have := List.find?_eq_none.1 hfind _ hmem
      simp at this
    | some relation =>
      have hdisplay : relation.display = model.target.display := by
        simpa using List.find?_some hfind
      obtain ⟨other, hother, rfl⟩ :=
        List.mem_map.1 (List.mem_reverse.1 (List.mem_of_find?_eq_some hfind))
      rw [huniq other (List.mem_filter.1 hother).1 hdisplay]
      rfl
  | false =>
    have hnone : ((p.orderModels.filter (p.wantsOutput exist)).map
        CompiledModel.target).reverse.find?
          (fun relation => decide (relation.display = model.target.display)) = none := by
      rw [List.find?_eq_none]
      intro relation hrelation hdisplay
      obtain ⟨other, hother, rfl⟩ := List.mem_map.1 (List.mem_reverse.1 hrelation)
      obtain ⟨hmem, hotherWants⟩ := List.mem_filter.1 hother
      rw [huniq other hmem (by simpa using hdisplay), hwants] at hotherWants
      cases hotherWants
    rw [hnone]
    rfl

end Evidence

end Planning
end PhloTransform.Engine
