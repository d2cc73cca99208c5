import PhloTransform.Core.Compiled

/-!
# Versions of a whole workspace

The compiler versions the models dependencies first: a version is derived from the
texts of the model, the versions of the models it reads and the states of the sources
it reads.  Compiling again under other source states changes nothing but the versions.

Main results:

- Theorem `modelVersions_congr`: a version depends on the states of the sources that the
  model reads, itself or through other models, and on no other state.
-/

namespace PhloTransform.Core

/-- The texts of a lowered model that enter its version. -/
structure LoweredModel where
  canonicalSql : String
  incremental : String
  contract : String
deriving Repr, DecidableEq

/-- `StaticSourceStateProvider`: the states by logical name. -/
abbrev StaticSourceStateProvider :=
  Library.Table (Prod.fst : String × String → String)

/-- The state of a source, if one was inserted under its logical name. -/
def StaticSourceStateProvider.sourceState (provider : StaticSourceStateProvider)
    (source : SourceId) : Option String :=
  (provider.get? source.logicalName).map Prod.snd

/-- The physical target slot and the materialisation, without the catalog. -/
def CompiledModel.targetSlot (model : CompiledModel) : String :=
  model.target.schema ++ "." ++ model.target.table ++ "|" ++ model.config.materialization.asStr

/-- Only the configuration that affects the output. -/
def CompiledModel.semanticConfig (model : CompiledModel) (incremental : String) : String :=
  "materialization=" ++ model.config.materialization.asStr ++ ";schema=" ++
    model.config.schema.getD "" ++ ";incremental=" ++ incremental

/-- Assemble the version inputs for a model. -/
def versionInputs (lowered : LoweredModel) (model : CompiledModel)
    (sourceState : SourceId → Option String) (versions : ModelId → Option ModelVersion) :
    VersionInputs where
  canonicalSql := lowered.canonicalSql
  config := model.semanticConfig lowered.incremental
  contract := lowered.contract
  dependencies := model.modelDependencies.map fun dependency =>
    (dependency.logicalName, ((versions dependency).map ModelVersion.hash).getD "")
  sources := model.sourceDependencies.map fun source =>
    (source.logicalName, (sourceState source).getD "")
  target := model.targetSlot

/-- Equal answers for what a model reads give equal version inputs. -/
theorem versionInputs_congr {lowered : LoweredModel} {model : CompiledModel}
    {sourceState sourceState' : SourceId → Option String}
    {versions versions' : ModelId → Option ModelVersion}
    (hsources : ∀ source ∈ model.sourceDependencies, sourceState source = sourceState' source)
    (hmodels : ∀ id ∈ model.modelDependencies, versions id = versions' id) :
    versionInputs lowered model sourceState versions =
      versionInputs lowered model sourceState' versions' := by
  have hdependencies : (model.modelDependencies.map fun id =>
        (id.logicalName, ((versions id).map ModelVersion.hash).getD "")) =
      model.modelDependencies.map fun id =>
        (id.logicalName, ((versions' id).map ModelVersion.hash).getD "") := by
    apply List.map_congr_left
    intro id hid
    rw [hmodels id hid]
  have hstates : (model.sourceDependencies.map fun source =>
        (source.logicalName, (sourceState source).getD "")) =
      model.sourceDependencies.map fun source =>
        (source.logicalName, (sourceState' source).getD "") := by
    apply List.map_congr_left
    intro source hsource
    rw [hsources source hsource]
  rw [versionInputs, versionInputs, hdependencies, hstates]

namespace Compilation

variable {source : SourceId}
variable {id : ModelId} {model : CompiledModel}

/-- Every source that a model names, once and in order. -/
def sources (compilation : Compilation) : List SourceId :=
  (compilation.models.flatMap CompiledModel.sourceDependencies).dedup.insertionSort
    fun a b => a.parts ≤ b.parts

theorem mem_sources {compilation : Compilation} :
    source ∈ compilation.sources ↔
      ∃ model ∈ compilation.models, source ∈ model.sourceDependencies := by
  simp [sources]

/-- The model reads the source, itself or through other models. -/
def DrawsOn (compilation : Compilation) (id : ModelId) (source : SourceId) : Prop :=
  ∃ reader, Relation.ReflTransGen (DependsOn compilation.models) id reader ∧
    source ∈ compilation.sourceDependencies reader

theorem mem_sources_of_drawsOn {compilation : Compilation} (h : compilation.DrawsOn id source) :
    source ∈ compilation.sources := by
  obtain ⟨reader, -, hread⟩ := h
  unfold sourceDependencies at hread
  split at hread
  · next model hmodel => exact mem_sources.2 ⟨model, mem_of_model hmodel, hread⟩
  · cases hread

theorem DrawsOn.of_sourceDependencies {compilation : Compilation}
    (hmodel : model ∈ compilation.models) (h : source ∈ model.sourceDependencies) :
    compilation.DrawsOn model.id source := by
  refine ⟨model.id, .refl, ?_⟩
  rw [sourceDependencies, model_of_mem hmodel]
  exact h

theorem DrawsOn.of_modelDependencies {compilation : Compilation}
    (hmodel : model ∈ compilation.models) (hid : id ∈ model.modelDependencies)
    (h : compilation.DrawsOn id source) : compilation.DrawsOn model.id source := by
  obtain ⟨reader, hreads, hsource⟩ := h
  exact ⟨reader, .head ⟨model, hmodel, rfl, hid⟩ hreads, hsource⟩

section Versions

variable [Sha256] (lowered : ModelId → LoweredModel) (compilation : Compilation)

/-- Version one model from the versions so far. -/
def versionStep (sourceState : SourceId → Option String)
    (versions : ModelId → Option ModelVersion) (id : ModelId) : ModelId → Option ModelVersion :=
  match compilation.model id with
  | none => versions
  | some model =>
    Function.update versions id
      (some (modelVersion (versionInputs (lowered id) model sourceState versions)))

/-- The versions of the models; none when the graph has a cycle. -/
def modelVersions (sourceState : SourceId → Option String) : ModelId → Option ModelVersion :=
  (compilation.topologicalOrder.getD []).foldl (compilation.versionStep lowered sourceState)
    fun _ => none

variable {lowered compilation}

/-- Two assignments of versions agree at the models that read only trusted sources. -/
def AgreeBehind (compilation : Compilation) (trusted : SourceId → Prop)
    (versions versions' : ModelId → Option ModelVersion) : Prop :=
  ∀ id, (∀ source, compilation.DrawsOn id source → trusted source) →
    versions id = versions' id

theorem AgreeBehind.versionStep {trusted : SourceId → Prop}
    {sourceState sourceState' : SourceId → Option String}
    (htrusted : ∀ source, trusted source → sourceState source = sourceState' source)
    {versions versions' : ModelId → Option ModelVersion}
    (h : compilation.AgreeBehind trusted versions versions') (id : ModelId) :
    compilation.AgreeBehind trusted (compilation.versionStep lowered sourceState versions id)
      (compilation.versionStep lowered sourceState' versions' id) := by
  unfold Compilation.versionStep
  cases hmodel : compilation.model id with
  | none => exact h
  | some model =>
    intro id' hid'
    by_cases hsame : id' = id
    · subst hsame
      have hmem := mem_of_model hmodel
      obtain rfl := id_of_model hmodel
      have hinputs : versionInputs (lowered model.id) model sourceState versions =
          versionInputs (lowered model.id) model sourceState' versions' := by
        apply versionInputs_congr
        · intro source hsource
          exact htrusted source (hid' source (.of_sourceDependencies hmem hsource))
        · intro dependency hdependency
          exact h dependency fun source hsource =>
            hid' source (.of_modelDependencies hmem hdependency hsource)
      simp [hinputs]
    · simpa [hsame] using h id' hid'

theorem AgreeBehind.foldl {trusted : SourceId → Prop}
    {sourceState sourceState' : SourceId → Option String}
    (htrusted : ∀ source, trusted source → sourceState source = sourceState' source)
    (order : List ModelId) {versions versions' : ModelId → Option ModelVersion}
    (h : compilation.AgreeBehind trusted versions versions') :
    compilation.AgreeBehind trusted
      (order.foldl (compilation.versionStep lowered sourceState) versions)
      (order.foldl (compilation.versionStep lowered sourceState') versions') := by
  induction order generalizing versions versions' with
  | nil => exact h
  | cons id order ih => exact ih (h.versionStep htrusted id)

/-- A version depends on the states of the sources that the model reads, itself or through
other models, and on no other state. -/
theorem modelVersions_congr (trusted : SourceId → Prop)
    {sourceState sourceState' : SourceId → Option String}
    (htrusted : ∀ source, trusted source → sourceState source = sourceState' source) :
    compilation.AgreeBehind trusted (compilation.modelVersions lowered sourceState)
      (compilation.modelVersions lowered sourceState') :=
  AgreeBehind.foldl htrusted _ fun _ _ => rfl

end Versions

/-! ## The same workspace under other versions -/

section WithVersions

variable (compilation : Compilation) (versions : ModelId → Option ModelVersion)

/-- The model at the version found for it. -/
def atVersion (model : CompiledModel) : CompiledModel :=
  { model with version := (versions model.id).getD default }

@[simp]
theorem atVersion_id (model : CompiledModel) : (atVersion versions model).id = model.id :=
  rfl

@[simp]
theorem atVersion_config (model : CompiledModel) :
    (atVersion versions model).config = model.config :=
  rfl

@[simp]
theorem atVersion_target (model : CompiledModel) :
    (atVersion versions model).target = model.target :=
  rfl

@[simp]
theorem atVersion_modelDependencies (model : CompiledModel) :
    (atVersion versions model).modelDependencies = model.modelDependencies :=
  rfl

@[simp]
theorem atVersion_sourceDependencies (model : CompiledModel) :
    (atVersion versions model).sourceDependencies = model.sourceDependencies :=
  rfl

theorem dependsOn_atVersion {models : List CompiledModel} {a b : ModelId} :
    DependsOn (models.map (atVersion versions)) a b ↔ DependsOn models a b := by
  simp [DependsOn]

/-- The workspace with every model at the version found for it. -/
def withVersions : Compilation :=
  { compilation with
    models := compilation.models.map (atVersion versions)
    models_nodup := by
      simpa [Function.comp_def] using compilation.models_nodup
    targets_nodup := fun hok => by
      simpa [Function.comp_def] using compilation.targets_nodup hok
    acyclic := fun hok id hcycle =>
      compilation.acyclic hok id
        (Relation.TransGen.mono (fun _ _ => (dependsOn_atVersion versions).1) id id hcycle)
    target_catalog := by
      simpa using compilation.target_catalog
    target_table := by
      simpa using compilation.target_table }

theorem model_withVersions (id : ModelId) :
    (compilation.withVersions versions).model id =
      (compilation.model id).map (atVersion versions) :=
  List.find?_map

@[simp]
theorem modelDependencies_withVersions :
    (compilation.withVersions versions).modelDependencies = compilation.modelDependencies := by
  funext id
  rw [Compilation.modelDependencies, Compilation.modelDependencies, model_withVersions]
  cases compilation.model id <;> rfl

@[simp]
theorem sourceDependencies_withVersions :
    (compilation.withVersions versions).sourceDependencies = compilation.sourceDependencies := by
  funext id
  rw [Compilation.sourceDependencies, Compilation.sourceDependencies, model_withVersions]
  cases compilation.model id <;> rfl

@[simp]
theorem topologicalOrder_withVersions :
    (compilation.withVersions versions).topologicalOrder = compilation.topologicalOrder := by
  have hgraph : (compilation.withVersions versions).graph = compilation.graph := by
    simp [graph, withVersions, Function.comp_def]
    exact modelDependencies_withVersions compilation versions
  rw [topologicalOrder, topologicalOrder, hgraph]

end WithVersions

/-- Compile the workspace again under these source states. -/
def compileWithOptions [Sha256] (lowered : ModelId → LoweredModel) (compilation : Compilation)
    (provider : StaticSourceStateProvider) : Compilation :=
  compilation.withVersions (compilation.modelVersions lowered provider.sourceState)

end Compilation
end PhloTransform.Core
