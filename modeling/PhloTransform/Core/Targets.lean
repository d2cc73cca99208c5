import Mathlib.Data.Prod.Lex
import PhloTransform.Core.Compiled
import PhloTransform.Library.SqlTable

/-!
# Physical targets

Every model is compiled to a physical relation: its schema is its own, the workspace's or
its namespace, and its table is its path, under the namespace when the schema is another.
A seed is loaded under its file name.  The compiler compares the targets of the models byte
for byte.

Main results:

- Theorem `targetCollisions_eq_nil_iff`: the compiler finds no collision exactly when no two
  models have one target.
- Theorem `CompilesTo.physicalTargets_nodup`: without errors, the physical models have
  different targets.
-/

namespace PhloTransform.Core

open Library (foldCase)

/-! ## The compiler's view of a project -/

/-- A discovered model. -/
structure SemanticModel where
  id : ModelId
  ns : String
  path : List String
  file : Option String
  config : ModelConfig
deriving DecidableEq

/-- A discovered CSV seed; its schema is that of `[seed.*]` or `[seeds]`. -/
structure SemanticSeed where
  name : String
  schema : Option String
  contentHash : String
deriving Repr, DecidableEq

/-- The models and seeds of a workspace.  Discovery drops a seed whose name is taken. -/
structure SemanticProject where
  models : List SemanticModel
  seeds : List SemanticSeed
  seeds_nodup : (seeds.map SemanticSeed.name).Nodup
  defaults : WorkspaceDefaults

/-- `target_relation`: the namespace is folded into the table name of a shared schema. -/
def targetRelation (model : SemanticModel) (defaults : WorkspaceDefaults) : Relation :=
  let schema := (model.config.schema.or defaults.schema).getD model.ns
  let joined := "__".intercalate model.path
  { catalog := defaults.catalog
    schema
    table := if schema = model.ns then joined else model.ns ++ "__" ++ joined }

/-- A compiled seed: without a schema of its own it takes the workspace's. -/
def SemanticSeed.compiled (seed : SemanticSeed) (defaults : WorkspaceDefaults) :
    CompiledSeed where
  name := seed.name
  schema := seed.schema.or defaults.schema
  contentHash := seed.contentHash

/-- Keep the first model of every identity. -/
def keepFirst : List SemanticModel → List SemanticModel
  | [] => []
  | model :: rest => model :: (keepFirst rest).filter fun other => other.id ≠ model.id

/-- An error of the compiler. -/
structure TargetDiagnostic where
  code : String
  message : String
  labels : List String
deriving Repr, DecidableEq

namespace SemanticProject

variable (project : SemanticProject)

/-- The models by identity, the first of every identity only. -/
def unique : List SemanticModel :=
  keepFirst (project.models.insertionSort fun a b => a.id ≤ b.id)

/-- The identities of more than one model. -/
def duplicates : List ModelId :=
  (project.models.map SemanticModel.id).dedup.filter fun id =>
    1 < (project.models.map SemanticModel.id).count id

def targeting (relation : Relation) : List SemanticModel :=
  project.unique.filter fun model => targetRelation model project.defaults = relation

def collisionDiagnostic (relation : Relation) : TargetDiagnostic where
  code := "PROJECT007"
  message := "multiple models target the relation `" ++ relation.display ++ "`"
  labels := (project.targeting relation).map fun model =>
    model.id.logicalName ++ " (" ++ model.file.getD "in memory" ++ ")"

/-- `detect_target_collisions`: relations are grouped as they are written. -/
def targetCollisions : List TargetDiagnostic :=
  let targets := (project.unique.map fun model => targetRelation model project.defaults).dedup
  let shared := targets.filter fun relation => 1 < (project.targeting relation).length
  (shared.insertionSort fun a b => toLex (a.schema, a.table) ≤ toLex (b.schema, b.table)).map
    project.collisionDiagnostic

/-- The compilation is one of the project, as far as targets go: it is without errors only when
the project has neither duplicate identities nor colliding targets. -/
structure CompilesTo (compilation : Compilation) : Prop where
  models : (compilation.models.map fun model => (model.id, model.config, model.target)) =
    project.unique.map fun model =>
      (model.id, model.config, targetRelation model project.defaults)
  seeds : compilation.seeds = project.seeds.map fun seed => seed.compiled project.defaults
  defaults : compilation.defaults = project.defaults
  errors : compilation.isOk = true → project.duplicates = [] ∧ project.targetCollisions = []

end SemanticProject

/-! ## What the compiler checks -/

theorem keepFirst_eq_self {models : List SemanticModel}
    (h : (models.map SemanticModel.id).Nodup) : keepFirst models = models := by
  induction models with
  | nil => rfl
  | cons model rest ih =>
    rw [List.map_cons, List.nodup_cons] at h
    rw [keepFirst, ih h.2, List.filter_eq_self.2]
    intro other hother
    have hne : other.id ≠ model.id := by
      intro heq
      exact h.1 (List.mem_map.2 ⟨other, hother, heq⟩)
    exact decide_eq_true hne

namespace SemanticProject

variable {project : SemanticProject}

theorem duplicates_eq_nil_iff :
    project.duplicates = [] ↔ (project.models.map SemanticModel.id).Nodup := by
  rw [duplicates, List.filter_eq_nil_iff, List.nodup_iff_count_le_one]
  simp only [List.mem_dedup, decide_eq_true_eq, not_lt]
  constructor
  · intro h id
    by_cases hid : id ∈ project.models.map SemanticModel.id
    · exact h id hid
    · rw [List.count_eq_zero.2 hid]
      exact Nat.zero_le 1
  · intro h id _
    exact h id

theorem unique_perm (h : project.duplicates = []) : project.unique.Perm project.models := by
  have hperm := List.perm_insertionSort (fun a b : SemanticModel => a.id ≤ b.id) project.models
  rw [unique, keepFirst_eq_self]
  · exact hperm
  · exact (hperm.map SemanticModel.id).nodup_iff.2 (duplicates_eq_nil_iff.1 h)

theorem length_targeting (relation : Relation) :
    (project.targeting relation).length =
      (project.unique.map fun model => targetRelation model project.defaults).count relation := by
  rw [targeting, List.count, List.countP_map, List.countP_eq_length_filter]
  rfl

/-- The compiler finds no collision exactly when no two models have one target. -/
theorem targetCollisions_eq_nil_iff :
    project.targetCollisions = [] ↔
      (project.unique.map fun model => targetRelation model project.defaults).Nodup := by
  have hshared : project.targetCollisions = [] ↔
      ∀ relation ∈ project.unique.map fun model => targetRelation model project.defaults,
        ¬1 < (project.targeting relation).length := by
    rw [targetCollisions, List.map_eq_nil_iff, ← List.length_eq_zero_iff,
      List.length_insertionSort, List.length_eq_zero_iff, List.filter_eq_nil_iff]
    simp only [List.mem_dedup, decide_eq_true_eq]
  rw [hshared, List.nodup_iff_count_le_one]
  constructor
  · intro h relation
    by_cases hmem : relation ∈ project.unique.map fun model =>
        targetRelation model project.defaults
    · rw [← length_targeting]
      exact Nat.le_of_not_lt (h relation hmem)
    · rw [List.count_eq_zero.2 hmem]
      exact Nat.zero_le 1
  · intro h relation _
    rw [length_targeting, not_lt]
    exact h relation

end SemanticProject

/-! ## Physical models -/

def ModelConfig.isPhysical (config : ModelConfig) : Bool :=
  decide (config.materialization ≠ .ephemeral)

/-- The targets of the models that are materialised. -/
def Compilation.physicalTargets (compilation : Compilation) : List Relation :=
  (compilation.models.filter fun model => model.config.isPhysical).map CompiledModel.target

namespace SemanticProject

variable {project : SemanticProject}
variable {compilation : Compilation}

theorem mem_physicalTargets (h : project.CompilesTo compilation) (hok : compilation.isOk = true)
    {relation : Relation} :
    relation ∈ compilation.physicalTargets ↔
      ∃ model ∈ project.models, model.config.isPhysical = true ∧
        targetRelation model project.defaults = relation := by
  have htriples : relation ∈ compilation.physicalTargets ↔
      ∃ triple ∈ compilation.models.map fun model => (model.id, model.config, model.target),
        triple.2.1.isPhysical = true ∧ triple.2.2 = relation := by
    simp [Compilation.physicalTargets, and_assoc]
  rw [htriples, h.models]
  constructor
  · rintro ⟨triple, htriple, hphysical, rfl⟩
    obtain ⟨model, hmodel, rfl⟩ := List.mem_map.1 htriple
    exact ⟨model, (unique_perm (h.errors hok).1).mem_iff.1 hmodel, hphysical, rfl⟩
  · rintro ⟨model, hmodel, hphysical, rfl⟩
    have hunique := (unique_perm (h.errors hok).1).mem_iff.2 hmodel
    exact ⟨_, List.mem_map_of_mem hunique, hphysical, rfl⟩

/-- Without errors, the physical models have different targets. -/
theorem CompilesTo.physicalTargets_nodup (h : project.CompilesTo compilation)
    (hok : compilation.isOk = true) : compilation.physicalTargets.Nodup := by
  have htargets : (compilation.models.map CompiledModel.target).Nodup := by
    have hmap := congrArg (List.map fun triple => triple.2.2) h.models
    simp only [List.map_map, Function.comp_def] at hmap
    rw [hmap]
    exact targetCollisions_eq_nil_iff.1 (h.errors hok).2
  exact htargets.sublist (List.filter_sublist.map _)

end SemanticProject

/-! ## Comparison without case -/

def Relation.folded (relation : Relation) : Option (List Char) × List Char × List Char :=
  (relation.catalog.map foldCase, foldCase relation.schema, foldCase relation.table)

/-- Two relations whose names differ in letter case only. -/
def Relation.DifferInCase (a b : Relation) : Prop :=
  a ≠ b ∧ a.folded = b.folded

theorem Relation.folded_eq_iff {a b : Relation} (hcatalog : a.catalog = b.catalog) :
    a.folded = b.folded ↔
      foldCase a.schema = foldCase b.schema ∧ foldCase a.table = foldCase b.table := by
  simp [folded, hcatalog]

end PhloTransform.Core
