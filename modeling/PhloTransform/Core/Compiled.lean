import PhloTransform.Core.Relation
import PhloTransform.Core.Version
import PhloTransform.Library.Table
import PhloTransform.Library.Topological

/-!
# Compiled workspaces

The compiler's output as the planner and the runner read it: models with
resolved dependencies, physical targets and desired versions, the seeds, the
tests and the workspace defaults.

Main results:

- Theorem `Compilation.eq_of_display_eq`: without errors, models are told apart
  by the display form of their targets.
-/

namespace PhloTransform.Core

inductive Materialization where
  | view
  | table
  | incremental
  /-- Compiled inline into dependents as a subquery; never a relation. -/
  | ephemeral
deriving Repr, DecidableEq

def Materialization.asStr : Materialization → String
  | view => "view"
  | table => "table"
  | incremental => "incremental"
  | ephemeral => "ephemeral"

/-- Declarative incremental intent. -/
inductive IncrementalStrategy where
  | append
  | key (columns : List String)
  | partition (columns : List String)
  | timeWindow (column : String) (overlapSeconds : Option Nat)
deriving Repr, DecidableEq

namespace IncrementalStrategy

def asStr : IncrementalStrategy → String
  | append => "append"
  | key _ => "key"
  | partition _ => "partition"
  | timeWindow _ _ => "time-window"

/-- The identity or partition columns this strategy uses. -/
def columns : IncrementalStrategy → List String
  | append => []
  | key columns => columns
  | partition columns => columns
  | timeWindow column _ => [column]

end IncrementalStrategy

/-- The configuration that selection, planning and execution read. -/
structure ModelConfig where
  materialization : Materialization
  tags : List String := []
  schema : Option String
  incremental : Option IncrementalStrategy
deriving Repr, DecidableEq

/-- Workspace-wide defaults that affect physical targeting. -/
structure WorkspaceDefaults where
  catalog : Option String
  schema : Option String
deriving Repr, DecidableEq

/-- A resolved dependency of a model. -/
inductive Dependency where
  | model (id : ModelId)
  | source (id : SourceId)
deriving DecidableEq

/-- Dependencies compare by variant and then by identity. -/
def Dependency.sortKey : Dependency → Lex (Nat × List String)
  | .model id => toLex (0, id.ns :: id.path)
  | .source s => toLex (1, s.parts)

/-- A fully resolved model. -/
structure CompiledModel where
  id : ModelId
  config : ModelConfig
  target : Relation
  compiledSql : String
  version : ModelVersion
  dependencies : List Dependency
  dependencies_nodup : dependencies.Nodup
deriving DecidableEq

namespace CompiledModel

def modelDependencies (model : CompiledModel) : List ModelId :=
  model.dependencies.filterMap fun
    | .model id => some id
    | .source _ => none

def sourceDependencies (model : CompiledModel) : List SourceId :=
  model.dependencies.filterMap fun
    | .model _ => none
    | .source id => some id

theorem mem_modelDependencies {model : CompiledModel} {id : ModelId} :
    id ∈ model.modelDependencies ↔ Dependency.model id ∈ model.dependencies := by
  simp only [modelDependencies, List.mem_filterMap]
  constructor
  · rintro ⟨dependency, hmem, hid⟩
    cases dependency with
    | model id' => simpa [← Option.some.inj hid] using hmem
    | source _ => cases hid
  · exact fun hmem => ⟨.model id, hmem, rfl⟩

theorem modelDependencies_nodup (model : CompiledModel) : model.modelDependencies.Nodup := by
  refine model.dependencies_nodup.filterMap ?_
  intro a a' b hb hb'
  cases a <;> cases a' <;> simp_all

/-- The strategy name recorded with a materialisation. -/
def incrementalStrategy (model : CompiledModel) : Option String :=
  model.config.incremental.map IncrementalStrategy.asStr

/-- The strategy's columns recorded with a materialisation. -/
def incrementalKey (model : CompiledModel) : Option String :=
  (model.config.incremental.map fun strategy => ",".intercalate strategy.columns).filter
    fun key => key ≠ ""

/-- The model appends the rows of a time window. -/
def isTimeWindow (model : CompiledModel) : Bool :=
  match model.config.incremental with
  | some (.timeWindow _ _) => true
  | _ => false

end CompiledModel

/-- A discovered CSV seed carried through compilation. -/
structure CompiledSeed where
  name : String
  schema : Option String
  contentHash : String
deriving Repr, DecidableEq

/-- The physical relation the seed loads into. -/
def CompiledSeed.relation (seed : CompiledSeed) (catalog : Option String)
    (fallbackSchema : String) : Relation where
  catalog := catalog
  schema := seed.schema.getD fallbackSchema
  table := seed.name

/-- A fully resolved custom test. -/
structure CompiledTest where
  id : String
  targets : List ModelId
  sources : List SourceId
deriving DecidableEq

/-- The model `a` reads the model `b`. -/
def DependsOn (models : List CompiledModel) (a b : ModelId) : Prop :=
  ∃ model ∈ models, model.id = a ∧ b ∈ model.modelDependencies

/-- Models whose dependencies all have a lower rank are not in a cycle. -/
theorem not_cyclic_of_rank {models : List CompiledModel} (rank : ModelId → Nat)
    (h : ∀ model ∈ models, ∀ dependency ∈ model.modelDependencies,
      rank dependency < rank model.id) (id : ModelId) :
    ¬ Relation.TransGen (DependsOn models) id id := by
  have hlt : ∀ a b, Relation.TransGen (DependsOn models) a b → rank b < rank a := by
    intro a b hreads
    induction hreads with
    | single hedge =>
      obtain ⟨model, hmodel, rfl, hdependency⟩ := hedge
      exact h model hmodel _ hdependency
    | tail _ hedge ih =>
      obtain ⟨model, hmodel, rfl, hdependency⟩ := hedge
      exact (h model hmodel _ hdependency).trans ih
  exact fun hcycle => absurd (hlt id id hcycle) (Nat.lt_irrefl _)

/-- The result of compiling a project.  Duplicate model ids and seed names are
dropped when they are diagnosed; a target collision and a cycle are errors. -/
structure Compilation where
  models : List CompiledModel
  models_nodup : (models.map CompiledModel.id).Nodup
  tests : List CompiledTest
  seeds : List CompiledSeed
  seeds_nodup : (seeds.map CompiledSeed.name).Nodup
  defaults : WorkspaceDefaults
  isOk : Bool
  targets_nodup : isOk = true → (models.map CompiledModel.target).Nodup
  acyclic : isOk = true → ∀ id, ¬ Relation.TransGen (DependsOn models) id id
  target_catalog : ∀ model ∈ models, model.target.catalog = defaults.catalog
  /-- A table name is a path of segments joined by underscores. -/
  target_table : ∀ model ∈ models, '.' ∉ model.target.table.toList

namespace Compilation

variable {compilation : Compilation}

def model (compilation : Compilation) (id : ModelId) : Option CompiledModel :=
  compilation.models.find? fun model => decide (model.id = id)

theorem id_of_model {id : ModelId} {model : CompiledModel} (h : compilation.model id = some model) :
    model.id = id := by
  simpa using List.find?_some h

theorem mem_of_model {id : ModelId} {model : CompiledModel} (h : compilation.model id = some model)
    : model ∈ compilation.models :=
  List.mem_of_find?_eq_some h

theorem model_of_mem {model : CompiledModel} (h : model ∈ compilation.models) :
    compilation.model model.id = some model :=
  ((⟨compilation.models, compilation.models_nodup⟩ :
    Library.Table CompiledModel.id).mem_rows_iff model).1 h

def modelByName (compilation : Compilation) (name : String) : Option CompiledModel :=
  match ModelId.parse name with
  | .ok id => compilation.model id
  | .error _ => none

/-- The direct model dependencies of a model; none for an unknown one. -/
def modelDependencies (compilation : Compilation) (id : ModelId) : List ModelId :=
  match compilation.model id with
  | some model => model.modelDependencies
  | none => []

/-- The direct source dependencies of a model; none for an unknown one. -/
def sourceDependencies (compilation : Compilation) (id : ModelId) : List SourceId :=
  match compilation.model id with
  | some model => model.sourceDependencies
  | none => []

theorem modelDependencies_nodup (compilation : Compilation) (id : ModelId) :
    (compilation.modelDependencies id).Nodup := by
  unfold modelDependencies
  split
  · exact CompiledModel.modelDependencies_nodup _
  · exact List.nodup_nil

/-- The dependency graph of the workspace. -/
def graph (compilation : Compilation) : Library.DependencyGraph ModelId where
  nodes := compilation.models.map CompiledModel.id
  nodes_nodup := compilation.models_nodup
  deps := compilation.modelDependencies
  deps_nodup := compilation.modelDependencies_nodup

theorem graph_acyclic (h : compilation.isOk = true) : compilation.graph.Acyclic := by
  intro id hcycle
  refine compilation.acyclic h id (Relation.TransGen.mono (fun a b hedge => ?_) id id hcycle)
  obtain ⟨-, -, hdependency⟩ := hedge
  have hdependency : b ∈ compilation.modelDependencies a := hdependency
  unfold modelDependencies at hdependency
  split at hdependency
  · next model hmodel =>
      exact ⟨model, mem_of_model hmodel, id_of_model hmodel, hdependency⟩
  · cases hdependency

/-- `topological_order`; absent when the graph has a cycle. -/
def topologicalOrder (compilation : Compilation) : Option (List ModelId) :=
  compilation.graph.topologicalOrder

/-- Without errors, models are told apart by the display form of their
targets. -/
theorem eq_of_display_eq {compilation : Compilation} (hok : compilation.isOk = true)
    {a b : CompiledModel} (ha : a ∈ compilation.models) (hb : b ∈ compilation.models)
    (h : a.target.display = b.target.display) : a = b := by
  have htarget : a.target = b.target :=
    Relation.eq_of_display_eq
      ((compilation.target_catalog a ha).trans (compilation.target_catalog b hb).symm)
      (compilation.target_table a ha) (compilation.target_table b hb) h
  exact List.inj_on_of_nodup_map (compilation.targets_nodup hok) ha hb htarget

def seed (compilation : Compilation) (name : String) : Option CompiledSeed :=
  compilation.seeds.find? fun seed => decide (seed.name = name)

theorem seed_of_mem {seed : CompiledSeed} (h : seed ∈ compilation.seeds) :
    compilation.seed seed.name = some seed :=
  ((⟨compilation.seeds, compilation.seeds_nodup⟩ :
    Library.Table CompiledSeed.name).mem_rows_iff seed).1 h

/-- The model is compiled inline into its dependents. -/
def isEphemeral (compilation : Compilation) (id : ModelId) : Bool :=
  match compilation.model id with
  | some model => decide (model.config.materialization = .ephemeral)
  | none => false

end Compilation

/-! ## Small workspaces -/

namespace Sample

def id (name : String) (h : isSegment name = true) : ModelId :=
  ⟨"assay", [name], by decide, by simp, by simpa using h⟩

def model (name : String) (h : isSegment name = true) (materialization : Materialization)
    (incremental : Option IncrementalStrategy) (dependencies : List Dependency)
    (hnodup : dependencies.Nodup) : CompiledModel where
  id := id name h
  config := { materialization, schema := none, incremental }
  target := { catalog := none, schema := "main", table := name }
  compiledSql := ""
  version := { (default : ModelVersion) with hash := name }
  dependencies := dependencies
  dependencies_nodup := hnodup

def rawModel : CompiledModel :=
  model "raw" (by decide) .table none [] (by decide)

def martModel : CompiledModel :=
  model "mart" (by decide) .table none [.model rawModel.id] (by decide)

def chain : Compilation where
  models := [rawModel, martModel]
  models_nodup := by decide
  tests := []
  seeds := []
  seeds_nodup := by decide
  defaults := { catalog := none, schema := none }
  isOk := true
  targets_nodup := by decide
  acyclic := fun _ => not_cyclic_of_rank (fun id => if id = martModel.id then 1 else 0)
    (by decide)
  target_catalog := by decide
  target_table := by decide

def stageModel : CompiledModel :=
  model "stage" (by decide) .ephemeral none [.model rawModel.id] (by decide)

def reportModel (dependencies : List Dependency) (h : dependencies.Nodup) : CompiledModel :=
  model "report" (by decide) .table none dependencies h

def staged (dependencies : List Dependency) (h : dependencies.Nodup)
    (hreads : ∀ dependency ∈ dependencies,
      dependency = .model rawModel.id ∨ dependency = .model stageModel.id) :
    Compilation where
  models := [rawModel, stageModel, reportModel dependencies h]
  models_nodup := by
    change ([rawModel.id, stageModel.id, id "report" (by decide)]).Nodup
    decide
  tests := []
  seeds := []
  seeds_nodup := by decide
  defaults := { catalog := none, schema := none }
  isOk := true
  targets_nodup := fun _ => by
    change ([rawModel.target, stageModel.target,
      (model "report" (by decide) .table none [] (by decide)).target]).Nodup
    decide
  acyclic := fun _ => by
    refine not_cyclic_of_rank
      (fun id => if id = rawModel.id then 0 else if id = stageModel.id then 1 else 2) ?_
    intro m hm dependency hdependency
    simp only [List.mem_cons, List.not_mem_nil, or_false] at hm
    rcases hm with rfl | rfl | rfl
    · revert dependency
      decide
    · revert dependency
      decide
    · have hread := hreads _ (CompiledModel.mem_modelDependencies.1 hdependency)
      simp only [Dependency.model.injEq] at hread
      rcases hread with rfl | rfl
      · change 0 < 2
        decide
      · change 1 < 2
        decide
  target_catalog := by
    intro m hm
    simp only [List.mem_cons, List.not_mem_nil, or_false] at hm
    rcases hm with rfl | rfl | rfl <;> rfl
  target_table := by
    intro m hm
    simp only [List.mem_cons, List.not_mem_nil, or_false] at hm
    rcases hm with rfl | rfl | rfl
    · decide
    · decide
    · change '.' ∉ "report".toList
      decide

end Sample

/-- The schema an adapter targets when a project configures no default. -/
def adapterDefaultSchema (adapterName : String) : Option String :=
  if adapterName = "duckdb" then some "main" else none

/-- The physical relation a seed loads into. -/
def seedRelation (seed : CompiledSeed) (defaultCatalog defaultSchema : Option String)
    (adapterName : String) : Relation :=
  seed.relation defaultCatalog
    ((defaultSchema.or (adapterDefaultSchema adapterName)).getD "default")

/-- The seed whose target relation matches a relation, if any. -/
def seedForRelation (seeds : List CompiledSeed) (relation : Relation)
    (defaultCatalog defaultSchema : Option String) (adapterName : String) :
    Option CompiledSeed :=
  seeds.find? fun seed =>
    decide ((seedRelation seed defaultCatalog defaultSchema adapterName).display =
      relation.display)

end PhloTransform.Core
