import PhloTransform.Core.Lineage
import PhloTransform.Core.Schema
import PhloTransform.Core.SourceVersions
import PhloTransform.Engine.SourceStates

/-!
# Compiling a workspace

A project is compiled as it stands, or once more under the columns and the states of its
external sources that an adapter reports.  The columns decide what the type analysis
finds; the states enter the versions.

Main results:

- Theorem `Workspace.compileForCatalog_eq_ok`: what a retargeted compile returns.
-/

namespace PhloTransform

/-! ## The analysis -/

namespace Core

/-- The workspace with the errors that an analysis may have found. -/
def Compilation.checked (compilation : Compilation) (clean : Bool) : Compilation :=
  { compilation with
    isOk := compilation.isOk && clean
    targets_nodup := fun h => compilation.targets_nodup (Bool.and_eq_true _ _ ▸ h).1
    acyclic := fun h => compilation.acyclic (Bool.and_eq_true _ _ ▸ h).1 }

@[simp]
theorem Compilation.checked_isOk (compilation : Compilation) (clean : Bool) :
    (compilation.checked clean).isOk = (compilation.isOk && clean) :=
  rfl

/-- `StaticSchemaProvider`: the schemas by logical name. -/
abbrev StaticSchemaProvider :=
  Library.Table (Prod.fst : String × List SchemaColumn → String)

end Core

namespace Engine

open Core (Compilation CompiledModel LineageGraph LineageModel LineageSeed LineageTest
  LoweredModel ModelId ModelSchema OutputColumn Relation SchemaColumn Sha256 SourceId
  StaticSchemaProvider StaticSourceStateProvider adapterDefaultSchema classifySchemaChange
  relationForSource)

/-- What the type analysis finds: whether it has no error, and for every model the output
schema and the columns with their lineage. -/
structure Analysis where
  clean : Bool
  schema : ModelId → ModelSchema
  columns : ModelId → List OutputColumn

/-- A compiled workspace and what the analysis found. -/
structure TypedCompilation where
  compilation : Compilation
  analysis : Analysis

/-! ## What a warehouse reports -/

/-- A column that an adapter reports, its type parsed. -/
structure RelationColumn where
  name : String
  dataType : Core.DataType
  nullable : Bool
deriving Repr, DecidableEq

/-- The column of a source: not nullable, or not known to be so. -/
def RelationColumn.sourceColumn (column : RelationColumn) : SchemaColumn where
  name := column.name
  dataType := column.dataType
  nullability := if column.nullable then .unknown else .notNull

def RelationColumn.currentColumn (column : RelationColumn) : SchemaColumn where
  name := column.name
  dataType := column.dataType
  nullability := .unknown

/-- The answers of an adapter about columns and states. -/
structure Warehouse where
  name : String
  relationColumns : Relation → Except EngineError (List RelationColumn)
  sourceState : Relation → Except EngineError (Option String)

/-- The adapter that the source states are collected from. -/
def Warehouse.sourceAdapter (warehouse : Warehouse) : SourceAdapter where
  name := warehouse.name
  sourceState := warehouse.sourceState

/-- The planner's schema check of a model that is built over an existing target. -/
def demandsRebuild (desired : ModelSchema)
    (columns : Except EngineError (List RelationColumn)) : Bool :=
  desired.known &&
    match columns with
    | .ok columns =>
      (classifySchemaChange desired.columns
        (columns.map RelationColumn.currentColumn)).needsRebuild
    | .error _ => false

/-! ## Compiling -/

/-- A loaded project: what it compiles to by its default catalog, up to the analysis. -/
structure Workspace where
  resolved : Option String → Compilation
  lowered : ModelId → LoweredModel
  analyse : StaticSchemaProvider → Analysis
  catalog : Option String
  schema : Option String
  /-- The files and the workflows of the models, and the seeds and tests, for the lineage. -/
  paths : ModelId → Option String
  workflows : ModelId → Option String
  seeds : List LineageSeed
  tests : List LineageTest

namespace Workspace

variable (workspace : Workspace)

/-- `compile_with_options`, by the catalog of the defaults. -/
def compileWithOptions [Sha256] (catalog : Option String) (schemas : StaticSchemaProvider)
    (states : StaticSourceStateProvider) : TypedCompilation where
  compilation := ((workspace.resolved catalog).checked (workspace.analyse schemas).clean)
    |>.compileWithOptions workspace.lowered states
  analysis := workspace.analyse schemas

/-- `compile`. -/
def compile [Sha256] (catalog : Option String) : TypedCompilation :=
  workspace.compileWithOptions catalog Library.Table.empty Library.Table.empty

/-- One round of the schema loop: a source that does not respond keeps its declared
schema. -/
def observeColumns (warehouse : Warehouse) (defaultCatalog defaultSchema : Option String)
    (provider : StaticSchemaProvider) (source : SourceId) : StaticSchemaProvider :=
  match warehouse.relationColumns (relationForSource source defaultCatalog defaultSchema) with
  | .error _ => provider
  | .ok columns =>
    if columns.isEmpty then provider
    else provider.put (source.logicalName, columns.map RelationColumn.sourceColumn)

/-- The schemas that the recompile goes by. -/
def observedSchemas (warehouse : Warehouse) (defaultCatalog defaultSchema : Option String)
    (base : Compilation) : StaticSchemaProvider :=
  let defaultSchema := defaultSchema.or (adapterDefaultSchema warehouse.name)
  base.sources.foldl (observeColumns warehouse defaultCatalog defaultSchema) Library.Table.empty

/-- The reported schemas: sources are probed in the project's own catalog. -/
def schemas (warehouse : Warehouse) (catalog : Option String) : StaticSchemaProvider :=
  observedSchemas warehouse workspace.catalog workspace.schema (workspace.resolved catalog)

def states (warehouse : Warehouse) (catalog : Option String) : StaticSourceStateProvider :=
  observedStates warehouse.sourceAdapter workspace.catalog workspace.schema
    (workspace.resolved catalog)

/-- `enrich_sources`: the recompile under the reported schemas and states. -/
def enrichSources [Sha256] (warehouse : Warehouse) (catalog : Option String) : TypedCompilation :=
  workspace.compileWithOptions catalog (workspace.schemas warehouse catalog)
    (workspace.states warehouse catalog)

/-- The compile of a project whose default catalog is replaced. -/
def retargeted [Sha256] (catalog : Option String) (adapter : Option Warehouse) (enrich : Bool) :
    TypedCompilation :=
  match enrich, adapter with
  | true, some warehouse => workspace.enrichSources warehouse (catalog.or workspace.catalog)
  | _, _ => workspace.compile (catalog.or workspace.catalog)

/-- `compile_for_catalog`, once the project is loaded. -/
def compileForCatalog [Sha256] (catalog : Option String) (adapter : Option Warehouse)
    (enrich : Bool) : Except EngineError TypedCompilation :=
  let compiled := workspace.retargeted catalog adapter enrich
  if compiled.compilation.isOk then .ok compiled else .error .compilation

def lineageModel (analysis : Analysis) (model : CompiledModel) : LineageModel where
  id := model.id
  path := workspace.paths model.id
  version := model.version.hash
  materialization := model.config.materialization
  workflow := workspace.workflows model.id
  target := model.target
  dependencies := model.dependencies
  columns := analysis.columns model.id

/-- The lineage graph that a compile ends with. -/
def lineage (compiled : TypedCompilation) : LineageGraph :=
  .build
    { models := compiled.compilation.models.map (workspace.lineageModel compiled.analysis)
      seeds := workspace.seeds
      tests := workspace.tests }

variable {workspace}

theorem compileForCatalog_eq_ok [Sha256] {catalog : Option String} {adapter : Option Warehouse}
    {enrich : Bool} {compiled : TypedCompilation} :
    workspace.compileForCatalog catalog adapter enrich = .ok compiled ↔
      compiled = workspace.retargeted catalog adapter enrich ∧ compiled.compilation.isOk = true := by
  unfold compileForCatalog
  simp only
  split
  · next hok =>
      rw [Except.ok.injEq]
      constructor
      · rintro rfl
        exact ⟨rfl, hok⟩
      · rintro ⟨rfl, -⟩
        rfl
  · next hok =>
      simp only [reduceCtorEq, false_iff, not_and]
      rintro rfl
      exact hok

end Workspace
end Engine
end PhloTransform
