import PhloTransform.Core.Assertions
import PhloTransform.Core.LineageCompleteness
import PhloTransform.Core.Resolve

/-!
# From parsed projects to lineage

The compiler resolves the relations of every model and of every test among the models it
keeps, orders the models, and generates a test for each assertion.  A test looks a name up
without the context of a model, so a source that it reads need not be read by any model.

Main results:

- Theorem `ParsedProject.resolved_compile`: what compiles is resolved.
- Theorem `ParsedProject.lineageComplete_iff`: the compilations whose lineage graph is
  complete.
-/

namespace PhloTransform.Core

open Sql

/-! ## The compiler's references -/

/-- A model as it is parsed and, where the graph has no cycle, analysed. -/
structure ParsedModel where
  entry : RegistryEntry
  /-- The relations of its statements, without common table expressions. -/
  relations : List RelationName
  path : Option String
  version : String
  materialization : Materialization
  workflow : Option String
  target : Relation
  directives : Directives
  columns : List OutputColumn

structure ParsedTest where
  id : String
  path : Option String
  relations : List RelationName

structure ParsedProject where
  models : List ParsedModel
  seeds : List LineageSeed
  tests : List ParsedTest

def Resolution.dependency : Resolution → Option Dependency
  | .model id => some (.model id)
  | .external s => some (.source s)
  | .ambiguous _ => none

/-- The resolved relations of a model, each once and in order. -/
def ParsedModel.dependencies (resolver : Resolver) (model : ParsedModel) : List Dependency :=
  ((model.relations.filterMap fun name => (resolver.resolve model.entry name).dependency).dedup)
    |>.insertionSort fun a b => a.sortKey ≤ b.sortKey

def Assertion.slug : Assertion → String
  | .notNull column => "not_null_" ++ column
  | .unique columns => "unique_" ++ String.intercalate "_" columns

/-- Logical runtime tests from the assertions of a model. -/
def ParsedModel.generateTests (model : ParsedModel) : List LineageTest :=
  (assertionsFor model.directives).map fun assertion =>
    { id := model.entry.id.logicalName ++ ".generated." ++ assertion.slug
      path := none
      generated := true
      targets := [model.entry.id]
      sources := [] }

/-- A custom test: names resolve without the context of a model. -/
def ParsedTest.compile (resolver : Resolver) (test : ParsedTest) : LineageTest :=
  let dependencies := test.relations.filterMap fun name =>
    (resolver.resolveGlobal name).dependency
  { id := test.id
    path := test.path
    generated := false
    targets := ((dependencies.filterMap fun
      | .model id => some id
      | .source _ => none).dedup).insertionSort (· ≤ ·)
    sources := ((dependencies.filterMap fun
      | .model _ => none
      | .source s => some s).dedup).insertionSort fun a b => a.parts ≤ b.parts }

/-- Keep the first model of every identity. -/
def firstOfEach : List ParsedModel → List ParsedModel
  | [] => []
  | model :: rest =>
    model :: (firstOfEach rest).filter fun other => other.entry.id ≠ model.entry.id

theorem nodup_firstOfEach (models : List ParsedModel) :
    ((firstOfEach models).map (·.entry.id)).Nodup := by
  induction models with
  | nil => exact List.nodup_nil
  | cons model rest ih =>
    rw [firstOfEach, List.map_cons, List.nodup_cons]
    constructor
    · intro hmem
      obtain ⟨other, hother, hid⟩ := List.mem_map.1 hmem
      have hne := (List.mem_filter.1 hother).2
      simp [hid] at hne
    · exact ih.sublist (List.filter_sublist.map _)

namespace ParsedProject

variable (project : ParsedProject)
variable {id : ModelId} {s : SourceId}
variable {resolution : Resolution} {t : LineageTest} {test : ParsedTest}

/-- The models by identity, the first of every identity only. -/
def unique : List ParsedModel :=
  firstOfEach (project.models.insertionSort fun a b => a.entry.id ≤ b.entry.id)

def resolver : Resolver :=
  .new (project.unique.map ParsedModel.entry)

def model (id : ModelId) : Option ParsedModel :=
  project.unique.find? fun model => decide (model.entry.id = id)

def modelDependencies (id : ModelId) : List ModelId :=
  match project.model id with
  | some model => (model.dependencies project.resolver).filterMap fun
      | .model id => some id
      | .source _ => none
  | none => []

theorem modelDependencies_nodup (id : ModelId) : (project.modelDependencies id).Nodup := by
  unfold modelDependencies
  split
  · refine List.Nodup.filterMap ?_ ?_
    · intro a a' b hb hb'
      cases a <;> cases a' <;> simp_all
    · exact (List.perm_insertionSort _ _).nodup_iff.2 (List.nodup_dedup _)
  · exact List.nodup_nil

def graph : Library.DependencyGraph ModelId where
  nodes := project.unique.map (·.entry.id)
  nodes_nodup := nodup_firstOfEach _
  deps := project.modelDependencies
  deps_nodup := project.modelDependencies_nodup

/-- The generated tests, dependencies first; none when the graph has a cycle. -/
def generatedTests : List LineageTest :=
  (project.graph.topologicalOrder.getD []).flatMap fun id =>
    ((project.model id).map ParsedModel.generateTests).getD []

/-- A compiled model; a cyclic graph is not analysed. -/
def compileModel (model : ParsedModel) : LineageModel where
  id := model.entry.id
  path := model.path
  version := model.version
  materialization := model.materialization
  workflow := model.workflow
  target := model.target
  dependencies := model.dependencies project.resolver
  columns := if project.graph.topologicalOrder.isSome then model.columns else []

/-- What the lineage reads of the compilation. -/
def compile : CompiledLineage where
  models := project.unique.map project.compileModel
  seeds := project.seeds
  tests :=
    let custom := (project.tests.map (ParsedTest.compile project.resolver)).insertionSort
      fun a b => a.id ≤ b.id
    (custom ++ project.generatedTests).insertionSort fun a b => a.id ≤ b.id

/-! ## What compiles is resolved -/

variable {project}

theorem mem_dependencies {model : ParsedModel} {d : Dependency} :
    d ∈ model.dependencies project.resolver ↔
      ∃ name ∈ model.relations, (project.resolver.resolve model.entry name).dependency = some d := by
  simp [ParsedModel.dependencies]

theorem mem_models_of_dependency (h : resolution.dependency = some (.model id)) :
    id ∈ resolution.models := by
  cases resolution with
  | model other => simpa [Resolution.dependency, Resolution.models, eq_comm] using h
  | external s => simp [Resolution.dependency] at h
  | ambiguous candidates => simp [Resolution.dependency] at h

theorem eq_external_of_dependency (h : resolution.dependency = some (.source s)) :
    resolution = .external s := by
  cases resolution with
  | model other => simp [Resolution.dependency] at h
  | external other => simpa [Resolution.dependency] using h
  | ambiguous candidates => simp [Resolution.dependency] at h

theorem exists_model_of_registered {ids : List ModelId}
    (h : Resolver.Registered (project.unique.map ParsedModel.entry) ids) (hid : id ∈ ids) :
    ∃ m ∈ project.compile.models, m.id = id := by
  obtain ⟨entry, hentry, rfl⟩ := h id hid
  obtain ⟨model, hmodel, rfl⟩ := List.mem_map.1 hentry
  exact ⟨project.compileModel model, List.mem_map_of_mem hmodel, rfl⟩

theorem mem_tests :
    t ∈ project.compile.tests ↔
      (∃ test ∈ project.tests, test.compile project.resolver = t) ∨ t ∈ project.generatedTests := by
  simp [compile]

theorem mem_targets :
    id ∈ (test.compile project.resolver).targets ↔
      ∃ name ∈ test.relations,
        (project.resolver.resolveGlobal name).dependency = some (.model id) := by
  simp only [ParsedTest.compile, List.mem_insertionSort, List.mem_dedup, List.mem_filterMap]
  constructor
  · rintro ⟨d, ⟨name, hname, hd⟩, hid⟩
    cases d with
    | model other => exact ⟨name, hname, by simpa [← Option.some.inj hid] using hd⟩
    | source s => simp at hid
  · rintro ⟨name, hname, hd⟩
    exact ⟨_, ⟨name, hname, hd⟩, rfl⟩

theorem mem_testSources :
    s ∈ (test.compile project.resolver).sources ↔
      ∃ name ∈ test.relations,
        (project.resolver.resolveGlobal name).dependency = some (.source s) := by
  simp only [ParsedTest.compile, List.mem_insertionSort, List.mem_dedup, List.mem_filterMap]
  constructor
  · rintro ⟨d, ⟨name, hname, hd⟩, hs⟩
    cases d with
    | model other => simp at hs
    | source other => exact ⟨name, hname, by simpa [← Option.some.inj hs] using hd⟩
  · rintro ⟨name, hname, hd⟩
    exact ⟨_, ⟨name, hname, hd⟩, rfl⟩

theorem mem_generatedTests (h : t ∈ project.generatedTests) :
    ∃ model ∈ project.unique, t ∈ model.generateTests := by
  obtain ⟨id, -, ht⟩ := List.mem_flatMap.1 h
  cases hmodel : project.model id with
  | none => simp [hmodel] at ht
  | some model =>
    rw [hmodel] at ht
    exact ⟨model, List.mem_of_find?_eq_some hmodel, ht⟩

theorem logicalName_of_dataset (h : DatasetId.source s = DatasetId.model id) :
    id.logicalName = ".".intercalate s.parts := by
  have hparts : s.parts = id.ns :: id.path := congrArg DatasetId.parts h
  apply String.toList_injective
  rw [id.toList_logicalName, String.toList_intercalate, hparts]
  rfl

theorem resolved_compile (project : ParsedProject) : project.compile.Resolved where
  nodup := by
    have hids : project.compile.models.map LineageModel.id =
        project.unique.map (·.entry.id) := by
      rw [compile, List.map_map]
      rfl
    rw [hids]
    exact nodup_firstOfEach _
  dependencies m hm id hd := by
    obtain ⟨model, -, rfl⟩ := List.mem_map.1 hm
    obtain ⟨name, -, hname⟩ := mem_dependencies.1 hd
    exact exists_model_of_registered (Resolver.registered_resolve _ _ name)
      (mem_models_of_dependency hname)
  targets t ht id hid := by
    rcases mem_tests.1 ht with ⟨test, -, rfl⟩ | hgenerated
    · obtain ⟨name, -, hname⟩ := mem_targets.1 hid
      exact exists_model_of_registered (Resolver.registered_resolveGlobal _ name)
        (mem_models_of_dependency hname)
    · obtain ⟨model, hmodel, ht⟩ := mem_generatedTests hgenerated
      obtain ⟨assertion, -, rfl⟩ := List.mem_map.1 ht
      rw [List.mem_singleton.1 hid]
      exact ⟨project.compileModel model, List.mem_map_of_mem hmodel, rfl⟩
  sources t ht s hs m hm heq := by
    rcases mem_tests.1 ht with ⟨test, -, rfl⟩ | hgenerated
    · obtain ⟨model, hmodel, rfl⟩ := List.mem_map.1 hm
      obtain ⟨name, -, hname⟩ := mem_testSources.1 hs
      have hexternal := eq_external_of_dependency hname
      have hparts := Resolver.parts_of_resolveGlobal_external hexternal
      refine Resolver.ne_of_resolveGlobal_external hexternal (List.mem_map_of_mem hmodel) ?_
      rw [RelationName.asDotted, ← hparts]
      exact logicalName_of_dataset heq
    · obtain ⟨model, -, ht⟩ := mem_generatedTests hgenerated
      obtain ⟨assertion, -, rfl⟩ := List.mem_map.1 ht
      exact absurd hs List.not_mem_nil

/-- The lineage graph of a compilation is complete exactly when every source that a test
reads is read by a model, and every recorded input by the model of its column. -/
theorem lineageComplete_iff (project : ParsedProject) :
    LineageComplete project.compile ↔ project.compile.Covered :=
  complete_iff_covered project.resolved_compile

end ParsedProject

/-! ## A test of a source that no model reads -/

namespace Sample

def testedSource : ParsedProject where
  models :=
    [{ entry := { id := rawModel.id, ns := "assay", root := none }
       relations := []
       path := none
       version := ""
       materialization := .table
       workflow := none
       target := { catalog := none, schema := "assay", table := "raw" }
       directives := { keys := [], notNull := [] }
       columns := [] }]
  seeds := []
  tests :=
    [{ id := "customers_unique"
       path := none
       relations := [⟨["lims", "customers"], by simp, by simp⟩] }]

/-- The edge from the tested source is lost. -/
theorem not_lineageComplete_testedSource :
    testedSource.graph.topologicalOrder.isSome = true ∧ ¬LineageComplete testedSource.compile := by
  refine ⟨by decide +kernel, fun h => ?_⟩
  have hcovered := (complete_iff_covered testedSource.resolved_compile).1 h
  have hread : ∃ t ∈ testedSource.compile.tests, ∃ s ∈ t.sources,
      ∀ m ∈ testedSource.compile.models, .source s ∉ m.dependencies := by
    decide +kernel
  obtain ⟨t, ht, s, hs, hnobody⟩ := hread
  obtain ⟨m, hm, hd⟩ := hcovered.tests t ht s hs
  exact hnobody m hm hd

end Sample

end PhloTransform.Core
