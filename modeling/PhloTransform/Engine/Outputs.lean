import PhloTransform.Core.Targets
import PhloTransform.Engine.Plan

/-!
# Producers of tables

The models of a workspace and the seeds that a plan loads write physical relations.  The
adapters compare names without case; the compiler compares the targets of models as they are
written, and nothing compares a seed with a model.

Main results:

- Theorem `outputsApart_iff`: when no two producers write one relation.
-/

namespace PhloTransform.Engine

open Core (Compilation CompiledSeed Relation SemanticModel SemanticProject targetRelation)
open Library (foldCase)

namespace Planning

variable (p : Planning)

/-- The relations written by the materialised models and by the seeds that the plan loads. -/
def outputs : List Relation :=
  p.compilation.physicalTargets ++ p.neededSeeds.map p.seedTarget

/-- No two producers write one relation, by the adapters' comparison. -/
def OutputsApart : Prop :=
  (p.outputs.map Relation.folded).Nodup

/-- No two names that the plan writes under clash: two materialised models whose targets differ
in letter case only, two loaded seeds, or a loaded seed and a materialised model. -/
structure NamesApart (project : SemanticProject) : Prop where
  models : ∀ a ∈ project.models, ∀ b ∈ project.models, a.config.isPhysical = true →
    b.config.isPhysical = true →
      ¬Relation.DifferInCase (targetRelation a project.defaults)
        (targetRelation b project.defaults)
  seeds : ∀ a ∈ p.neededSeeds, ∀ b ∈ p.neededSeeds, a.name ≠ b.name →
    foldCase a.name = foldCase b.name →
      foldCase (p.seedTarget a).schema ≠ foldCase (p.seedTarget b).schema
  seeds_models : ∀ seed ∈ p.neededSeeds, ∀ model ∈ project.models,
    model.config.isPhysical = true →
      foldCase (targetRelation model project.defaults).table = foldCase seed.name →
        foldCase (targetRelation model project.defaults).schema ≠
          foldCase (p.seedTarget seed).schema

variable {p}

theorem neededSeeds_names_nodup : (p.neededSeeds.map CompiledSeed.name).Nodup := by
  rw [neededSeeds]
  exact ((List.perm_insertionSort _ _).map _).nodup_iff.2
    (p.compilation.seeds_nodup.sublist (List.filter_sublist.map _))

theorem folded_seedTarget_eq_iff {a b : CompiledSeed} :
    (p.seedTarget a).folded = (p.seedTarget b).folded ↔
      foldCase a.name = foldCase b.name ∧
        foldCase (p.seedTarget a).schema = foldCase (p.seedTarget b).schema := by
  have hcatalog : (p.seedTarget a).catalog = (p.seedTarget b).catalog := rfl
  exact (Relation.folded_eq_iff hcatalog).trans and_comm

theorem seeds_apart_iff :
    ((p.neededSeeds.map p.seedTarget).map Relation.folded).Nodup ↔
      ∀ a ∈ p.neededSeeds, ∀ b ∈ p.neededSeeds, a.name ≠ b.name →
        foldCase a.name = foldCase b.name →
          foldCase (p.seedTarget a).schema ≠ foldCase (p.seedTarget b).schema := by
  have hnames := neededSeeds_names_nodup (p := p)
  rw [List.map_map, List.nodup_map_iff_inj_on (List.Nodup.of_map _ hnames)]
  constructor
  · intro h a ha b hb hne hname hschema
    exact hne (congrArg _ (h a ha b hb (folded_seedTarget_eq_iff.2 ⟨hname, hschema⟩)))
  · intro h a ha b hb hfold
    obtain ⟨hname, hschema⟩ := folded_seedTarget_eq_iff.1 hfold
    by_contra hne
    have hnames' : a.name ≠ b.name := fun heq =>
      hne (List.inj_on_of_nodup_map hnames ha hb heq)
    exact h a ha b hb hnames' hname hschema

variable {project : SemanticProject}

theorem models_apart_iff (h : project.CompilesTo p.compilation)
    (hok : p.compilation.isOk = true) :
    (p.compilation.physicalTargets.map Relation.folded).Nodup ↔
      ∀ a ∈ project.models, ∀ b ∈ project.models, a.config.isPhysical = true →
        b.config.isPhysical = true →
          ¬Relation.DifferInCase (targetRelation a project.defaults)
            (targetRelation b project.defaults) := by
  rw [List.nodup_map_iff_inj_on (h.physicalTargets_nodup hok)]
  constructor
  · rintro hinj a ha b hb hphysicalA hphysicalB ⟨hne, hfold⟩
    apply hne
    apply hinj _ _ _ _ hfold
    · exact (SemanticProject.mem_physicalTargets h hok).2 ⟨a, ha, hphysicalA, rfl⟩
    · exact (SemanticProject.mem_physicalTargets h hok).2 ⟨b, hb, hphysicalB, rfl⟩
  · intro hcase x hx y hy hfold
    obtain ⟨a, ha, hphysicalA, rfl⟩ := (SemanticProject.mem_physicalTargets h hok).1 hx
    obtain ⟨b, hb, hphysicalB, rfl⟩ := (SemanticProject.mem_physicalTargets h hok).1 hy
    by_contra hne
    exact hcase a ha b hb hphysicalA hphysicalB ⟨hne, hfold⟩

/-- Without errors, no two producers write one relation exactly when no two of the names they
write under clash without case. -/
theorem outputsApart_iff (h : project.CompilesTo p.compilation)
    (hok : p.compilation.isOk = true) : p.OutputsApart ↔ p.NamesApart project := by
  have hcatalog : ∀ (model : SemanticModel) (seed : CompiledSeed),
      (targetRelation model project.defaults).catalog = (p.seedTarget seed).catalog := by
    intro model seed
    exact congrArg Core.WorkspaceDefaults.catalog h.defaults.symm
  rw [OutputsApart, outputs, List.map_append, List.nodup_append, models_apart_iff h hok,
    seeds_apart_iff]
  constructor
  · rintro ⟨hmodels, hseeds, hdisjoint⟩
    refine ⟨hmodels, hseeds, ?_⟩
    intro seed hseed model hmodel hphysical htable hschema
    have hmem := (SemanticProject.mem_physicalTargets h hok).2 ⟨model, hmodel, hphysical, rfl⟩
    apply hdisjoint _ (List.mem_map_of_mem hmem) _
      (List.mem_map_of_mem (List.mem_map_of_mem hseed))
    exact (Relation.folded_eq_iff (hcatalog model seed)).2 ⟨hschema, htable⟩
  · rintro ⟨hmodels, hseeds, hbetween⟩
    refine ⟨hmodels, hseeds, ?_⟩
    intro x hx y hy heq
    obtain ⟨relation, hrelation, rfl⟩ := List.mem_map.1 hx
    obtain ⟨target, htarget, rfl⟩ := List.mem_map.1 hy
    obtain ⟨seed, hseed, rfl⟩ := List.mem_map.1 htarget
    obtain ⟨model, hmodel, hphysical, rfl⟩ :=
      (SemanticProject.mem_physicalTargets h hok).1 hrelation
    obtain ⟨hschema, htable⟩ := (Relation.folded_eq_iff (hcatalog model seed)).1 heq
    exact hbetween seed hseed model hmodel hphysical htable hschema

end Planning

/-! ## Two files that differ in case -/

namespace Sample

def assayFile (name : String) (h : Core.isSegment name = true) : SemanticModel where
  id := Core.Sample.id name h
  ns := "assay"
  path := [name]
  file := some ("transforms/" ++ name ++ ".sql")
  config := { materialization := .table, schema := none, incremental := none }

def ordersTwice : SemanticProject where
  models := [assayFile "orders" (by decide), assayFile "Orders" (by decide)]
  seeds := []
  seeds_nodup := by decide
  defaults := { catalog := none, schema := none }

def compiledAt (model : SemanticModel) : Core.CompiledModel where
  id := model.id
  config := model.config
  target := targetRelation model { catalog := none, schema := none }
  compiledSql := ""
  version := default
  dependencies := []
  dependencies_nodup := List.nodup_nil

def ordersCompiled : Compilation where
  models := [compiledAt (assayFile "Orders" (by decide)),
    compiledAt (assayFile "orders" (by decide))]
  models_nodup := by decide +kernel
  tests := []
  seeds := []
  seeds_nodup := List.nodup_nil
  defaults := { catalog := none, schema := none }
  isOk := true
  targets_nodup := by decide +kernel
  acyclic := fun _ => Core.not_cyclic_of_rank (fun _ => 0) (by decide +kernel)
  target_catalog := by decide +kernel
  target_table := by decide +kernel

def planOrders : Planning where
  compilation := ordersCompiled
  selection := { members := ordersCompiled.models.map Core.CompiledModel.id, excluded := [] }
  environment := none
  force := false
  view :=
    { name := "duckdb", relationsExist := none, outputIdentity := fun _ => none
      schemaForcesRebuild := fun _ => false }
  store := none

theorem ordersTwice_compiles : ordersTwice.CompilesTo planOrders.compilation where
  models := by decide +kernel
  seeds := rfl
  defaults := rfl
  errors := by decide +kernel

end Sample

theorem Planning.outputsApart_iff_orders :
    Sample.planOrders.OutputsApart ↔ Sample.planOrders.NamesApart Sample.ordersTwice :=
  Planning.outputsApart_iff Sample.ordersTwice_compiles rfl

/-- Two files that differ in letter case compile without errors and write one relation. -/
theorem orders_write_one_relation :
    Sample.ordersTwice.CompilesTo Sample.planOrders.compilation ∧
      Sample.planOrders.compilation.isOk = true ∧ ¬Sample.planOrders.OutputsApart := by
  refine ⟨Sample.ordersTwice_compiles, rfl, ?_⟩
  unfold Planning.OutputsApart
  decide +kernel

end PhloTransform.Engine
