import PhloTransform.Core.Compiled
import PhloTransform.Engine.Evidence
import PhloTransform.Engine.Plan
import Mathlib.Data.List.Sort

/-!
# Structured branch comparison

A branch diff compares the materialised datasets of a candidate reference against
those of a base.  Its report lists every dataset of the workspace and of the two
environments' records once, by name, as a model or as a seed.

Main results:

- Theorem `mem_names`: which names a report lists.
- Theorem `unmixed_iff`: when a name's kind in the report fits its records.
-/

namespace PhloTransform.Engine

open Core (Compilation CompiledModel CompiledSeed Relation)

/-! ## The report -/

/-- What a dataset is. -/
inductive DatasetKind where
  | model
  | seed
deriving Repr, DecidableEq

/-- How a dataset differs between the base and the candidate. -/
inductive DatasetStatus where
  | added
  | removed
  | changed
  | unchanged
  | absent
deriving Repr, DecidableEq

/-- One dataset's branch comparison. -/
structure DatasetDiff where
  dataset : String
  kind : DatasetKind
  status : DatasetStatus
  candidateVersion : Option String
  baseVersion : Option String
  candidateRelation : Option String
  baseRelation : Option String
  upstream : List String
deriving Repr, DecidableEq

structure SchemaChange where
  column : String
  kind : String
  detail : String
  safety : String
deriving Repr, DecidableEq

/-- Column-level changes for one dataset. -/
structure ModelSchemaDiff where
  model : String
  changes : List SchemaChange
deriving Repr, DecidableEq

/-- Row-count comparison for one dataset. -/
structure ModelRowDiff where
  dataset : String
  baseRows : Option Int
  candidateRows : Option Int
  delta : Option Int
deriving Repr, DecidableEq

/-- A keyed value diff of one model. -/
structure DiffReport where
  model : String
  candidateRelation : String
  baseRelation : String
  passed : Bool
deriving Repr, DecidableEq

/-- A structured branch comparison. -/
structure BranchDiffReport where
  candidateRef : String
  baseRef : String
  /-- The commits the references resolved to when the diff ran. -/
  candidateHash : Option String
  baseHash : Option String
  datasets : List DatasetDiff
  schemaChanges : List ModelSchemaDiff
  rows : List ModelRowDiff
  diffs : List DiffReport
  deep : Bool
  passed : Bool
  startedAt : String
  finishedAt : String
deriving Repr, DecidableEq

/-- A request to compare two references. -/
structure BranchDiffRequest where
  candidateRef : String
  baseRef : String
  candidateCatalog : Option String
  baseCatalog : Option String
  deep : Bool
  defaultSchema : Option String
  candidateHash : Option String
  baseHash : Option String
deriving Repr, DecidableEq

/-- A request to diff two relations by key. -/
structure DiffRequest where
  model : String
  candidateRelation : Relation
  baseRelation : Relation
  candidateVersion : Option String
  baseVersion : Option String
deriving Repr, DecidableEq

/-! ## Records of an environment -/

section Environment

variable [Rfc3339]

/-- `materialized_for_environment`: `main` also folds in the default environment. -/
def materializedForEnvironment (store : Store) (environment : String) :
    String → Option MaterializedRecord :=
  materializedScope store (some environment)

/-- `seeds_for_environment`. -/
def seedsForEnvironment (store : Store) (environment : String) : String → Option SeedRecord :=
  seedsScope store (some environment)

end Environment

def scopeKeys {R : Type*} (key : R → String) (recordsIn : Option String → List R)
    (environment : Option String) : List String :=
  (recordsIn environment).map key ++
    match foldedEnvironment environment with
    | some folded => (recordsIn folded).map key
    | none => []

theorem isSome_scopeOf [Rfc3339] {R : Type*} {key timestamp : R → String}
    {recordsIn : Option String → List R}
    (hnodup : ∀ environment, ((recordsIn environment).map key).Nodup)
    (environment : Option String) (k : String) :
    (scopeOf key timestamp recordsIn environment k).isSome = true ↔
      k ∈ scopeKeys key recordsIn environment := by
  have hfind : ∀ environment, ((recordsIn environment).find? fun record =>
      decide (key record = k)).isSome = true ↔ k ∈ (recordsIn environment).map key := by
    intro environment
    simp [List.find?_isSome, List.mem_map]
  have hmerge : ∀ own folded : Option R, (mergeOne timestamp own folded).isSome = true ↔
      own.isSome = true ∨ folded.isSome = true := by
    intro own folded
    cases folded <;> simp [mergeOne]
  rw [scopeOf_apply hnodup, hmerge, hfind, scopeKeys]
  cases foldedEnvironment environment with
  | none => simp
  | some folded => rw [Option.bind_some, hfind, List.mem_append]

/-- The models recorded for an environment. -/
def materializedNames (store : Store) (environment : String) : List String :=
  scopeKeys MaterializedRecord.modelId store.materializedIn (some environment)

/-- The seeds recorded for an environment. -/
def seedNames (store : Store) (environment : String) : List String :=
  scopeKeys SeedRecord.name store.seedsIn (some environment)

theorem mem_materializedNames [Rfc3339] (store : Store) (environment name : String) :
    name ∈ materializedNames store environment ↔
      (materializedForEnvironment store environment name).isSome = true :=
  (isSome_scopeOf (fun environment => nodup_names_filter_column store.modelVersions
    (environmentColumn environment)) (some environment) name).symm

theorem mem_seedNames [Rfc3339] (store : Store) (environment name : String) :
    name ∈ seedNames store environment ↔
      (seedsForEnvironment store environment name).isSome = true :=
  (isSome_scopeOf (fun environment => nodup_names_filter_column store.seedLoads
    (environmentColumn environment)) (some environment) name).symm

/-- The text order without repetitions of a `BTreeSet`. -/
def sortedUnique (names : List String) : List String :=
  names.dedup.insertionSort (· ≤ ·)

@[simp]
theorem mem_sortedUnique {names : List String} {name : String} :
    name ∈ sortedUnique names ↔ name ∈ names := by
  simp [sortedUnique]

/-- Re-point a compiled target at a reference's catalog. -/
def retarget (target : Relation) (catalog : Option String) : Relation :=
  match catalog with
  | some catalog => { target with catalog := some catalog }
  | none => target

/-! ## The comparison -/

/-- What the warehouse answers, and what a diff of two relations reports. -/
structure BranchView where
  relationExists : Relation → Bool
  sourceState : Relation → Option String
  /-- The column-level changes between two relations under a dataset's renames. -/
  schemaChanges : String → Option Relation → Option Relation → List SchemaChange
  rowCount : Relation → Except EngineError Int
  isCompared : CompiledModel → Bool
  diff : DiffRequest → Except EngineError DiffReport

/-- Two references to compare. -/
structure BranchComparison where
  view : BranchView
  state : Option Store
  compilation : Compilation
  request : BranchDiffRequest

/-- A dataset's resolved relations on each side, with existence. -/
structure Resolved where
  candidate : Option Relation
  candidateExists : Bool
  base : Option Relation
  baseExists : Bool
deriving Repr, DecidableEq

namespace BranchComparison

variable [Rfc3339] (b : BranchComparison)
variable {name : String}

def candidateRecords : String → Option MaterializedRecord :=
  match b.state with
  | some store => materializedForEnvironment store b.request.candidateRef
  | none => fun _ => none

def baseRecords : String → Option MaterializedRecord :=
  match b.state with
  | some store => materializedForEnvironment store b.request.baseRef
  | none => fun _ => none

def candidateSeeds : String → Option SeedRecord :=
  match b.state with
  | some store => seedsForEnvironment store b.request.candidateRef
  | none => fun _ => none

def baseSeeds : String → Option SeedRecord :=
  match b.state with
  | some store => seedsForEnvironment store b.request.baseRef
  | none => fun _ => none

section

omit [Rfc3339]

/-- Every name recorded for one of the two environments. -/
def recordedNames : List String :=
  match b.state with
  | some store =>
    materializedNames store b.request.candidateRef ++
      materializedNames store b.request.baseRef ++
      seedNames store b.request.candidateRef ++ seedNames store b.request.baseRef
  | none => []

/-- The union of workspace models, workspace seeds and recorded materialisations. -/
def names : List String :=
  sortedUnique (b.compilation.models.map (fun model => model.id.logicalName) ++
    b.compilation.seeds.map CompiledSeed.name ++ b.recordedNames)

def compiledSeed (name : String) : Option CompiledSeed :=
  b.compilation.seeds.find? fun seed => decide (seed.name = name)

end

/-- A name is a seed when no model has it and a seed or a seed record does. -/
def isSeed (name : String) : Bool :=
  (b.compilation.modelByName name).isNone &&
    ((b.compiledSeed name).isSome || (b.candidateSeeds name).isSome || (b.baseSeeds name).isSome)

def kind (name : String) : DatasetKind :=
  if b.isSeed name then .seed else .model

def candidateVersion (name : String) : Option String :=
  ((b.candidateRecords name).map fun record => record.version.hash).or
    ((b.candidateSeeds name).map SeedRecord.contentHash)

def baseVersion (name : String) : Option String :=
  ((b.baseRecords name).map fun record => record.version.hash).or
    ((b.baseSeeds name).map SeedRecord.contentHash)

omit [Rfc3339] in
/-- The relation of one side: the recorded target, or the compiled one under the
side's catalog. -/
def sideRelation (record : Option MaterializedRecord) (seedRecord : Option SeedRecord)
    (catalog : Option String) (name : String) : Option Relation :=
  (((record.bind fun record => Relation.parse record.target).or
    (seedRecord.bind fun record => Relation.parse record.target)).or
    ((b.compilation.modelByName name).map fun model => retarget model.target catalog)).or
    ((b.compiledSeed name).map fun seed =>
      seed.relation catalog (b.request.defaultSchema.getD "public"))

omit [Rfc3339] in
/-- `exists`: a failed probe and a missing relation are both absent. -/
def relationExists (relation : Option Relation) : Bool :=
  relation.any b.view.relationExists

def resolved (name : String) : Resolved :=
  let candidate := b.sideRelation (b.candidateRecords name) (b.candidateSeeds name)
    b.request.candidateCatalog name
  let base := b.sideRelation (b.baseRecords name) (b.baseSeeds name) b.request.baseCatalog name
  { candidate, candidateExists := b.relationExists candidate
    base, baseExists := b.relationExists base }

def status (name : String) : DatasetStatus :=
  match (b.resolved name).candidateExists, (b.resolved name).baseExists with
  | true, false => .added
  | false, true => .removed
  | false, false => .absent
  | true, true =>
    match b.candidateVersion name, b.baseVersion name with
    | some candidate, some base => if candidate ≠ base then .changed else .unchanged
    -- the candidate wrote the dataset and the base's version is unknown
    | some _, none => .changed
    | none, _ =>
      match (b.resolved name).candidate.bind b.view.sourceState,
        (b.resolved name).base.bind b.view.sourceState with
      | some candidate, some base => if candidate ≠ base then .changed else .unchanged
      | _, _ => .unchanged

def datasetDiff (name : String) : DatasetDiff where
  dataset := name
  kind := b.kind name
  status := b.status name
  candidateVersion := b.candidateVersion name
  baseVersion := b.baseVersion name
  candidateRelation := (b.resolved name).candidate.map Relation.display
  baseRelation := (b.resolved name).base.map Relation.display
  upstream :=
    match b.compilation.modelByName name with
    | some model => model.modelDependencies.map fun id => id.logicalName
    | none => []

def datasets : List DatasetDiff :=
  b.names.map b.datasetDiff

/-- The datasets present on at least one side. -/
def present : List DatasetDiff :=
  b.datasets.filter fun dataset => dataset.status ≠ .absent

omit [Rfc3339] in
def live (relation : Option Relation) (there : Bool) : Option Relation :=
  if there then relation else none

def schemaChanges : List ModelSchemaDiff :=
  (b.present.map fun dataset =>
    let r := b.resolved dataset.dataset
    ({ model := dataset.dataset
       changes := b.view.schemaChanges dataset.dataset (live r.candidate r.candidateExists)
         (live r.base r.baseExists) } : ModelSchemaDiff)).filter
    fun diff => !diff.changes.isEmpty

omit [Rfc3339] in
def countRows (relation : Option Relation) : Except EngineError (Option Int) :=
  match relation with
  | some relation => (b.view.rowCount relation).map some
  | none => .ok none

def rowDiff (dataset : DatasetDiff) : Except EngineError ModelRowDiff := do
  let r := b.resolved dataset.dataset
  let candidateRows ← b.countRows (live r.candidate r.candidateExists)
  let baseRows ← b.countRows (live r.base r.baseExists)
  pure { dataset := dataset.dataset, baseRows, candidateRows
         delta := baseRows.bind fun base => candidateRows.map fun candidate => candidate - base }

def rows : Except EngineError (List ModelRowDiff) := do
  let rows ← b.present.mapM b.rowDiff
  pure (rows.filter fun row => row.candidateRows.isSome || row.baseRows.isSome)

/-- The value diff of a changed model that declares a key or a policy. -/
def diffRequest (dataset : DatasetDiff) : Option DiffRequest :=
  if dataset.status = .changed then
    match b.compilation.modelByName dataset.dataset, (b.resolved dataset.dataset).candidate,
      (b.resolved dataset.dataset).base with
    | some model, some candidateRelation, some baseRelation =>
      if b.view.isCompared model then
        some { model := dataset.dataset, candidateRelation, baseRelation
               candidateVersion := dataset.candidateVersion, baseVersion := dataset.baseVersion }
      else none
    | _, _, _ => none
  else none

def diffs : Except EngineError (List DiffReport) := do
  if b.request.deep then
    let diffs ← (b.datasets.filterMap b.diffRequest).mapM b.view.diff
    pure (diffs.insertionSort fun left right => left.model ≤ right.model)
  else pure []

/-! ## Which names, and as what -/

/-- Some side has a model record of the name. -/
def HasModelRecord (name : String) : Prop :=
  (b.candidateRecords name).isSome = true ∨ (b.baseRecords name).isSome = true

/-- Some side has a seed record of the name. -/
def HasSeedRecord (name : String) : Prop :=
  (b.candidateSeeds name).isSome = true ∨ (b.baseSeeds name).isSome = true

theorem mem_recordedNames :
    name ∈ b.recordedNames ↔ b.HasModelRecord name ∨ b.HasSeedRecord name := by
  unfold recordedNames HasModelRecord HasSeedRecord candidateRecords baseRecords candidateSeeds
    baseSeeds
  cases b.state with
  | none => simp
  | some store =>
    simp only [List.mem_append, mem_materializedNames, mem_seedNames]
    tauto

/-- A report lists the workspace's names and the recorded ones. -/
theorem mem_names :
    name ∈ b.names ↔ (∃ model ∈ b.compilation.models, model.id.logicalName = name) ∨
      (∃ seed ∈ b.compilation.seeds, seed.name = name) ∨
      b.HasModelRecord name ∨ b.HasSeedRecord name := by
  simp only [names, mem_sortedUnique, List.mem_append, List.mem_map, mem_recordedNames, or_assoc]

theorem mem_names_of_record (h : b.HasModelRecord name ∨ b.HasSeedRecord name) : name ∈ b.names :=
  b.mem_names.2 (Or.inr (Or.inr h))

theorem kind_eq_model_iff :
    b.kind name = .model ↔ (b.compilation.modelByName name).isSome = true ∨
      ((b.compiledSeed name).isSome = false ∧ ¬ b.HasSeedRecord name) := by
  unfold kind isSeed HasSeedRecord
  cases b.compilation.modelByName name <;> cases b.compiledSeed name <;>
    cases b.candidateSeeds name <;> cases b.baseSeeds name <;> simp

/-- No name stands for both a model and a seed. -/
def Unmixed : Prop :=
  ∀ name, ¬ (b.HasModelRecord name ∧ b.HasSeedRecord name) ∧
    ¬ (b.HasSeedRecord name ∧ (b.compilation.modelByName name).isSome = true) ∧
    ¬ (b.HasModelRecord name ∧ (b.compiledSeed name).isSome = true ∧
      (b.compilation.modelByName name).isSome = false)

/-- Names are unmixed when each is reported as what its records are. -/
theorem unmixed_iff :
    b.Unmixed ↔ ∀ name, (b.HasModelRecord name → b.kind name = .model) ∧
      (b.HasSeedRecord name → b.kind name = .seed) := by
  refine forall_congr' fun name => ?_
  have hseed : b.kind name = .seed ↔ ¬ b.kind name = .model := by
    cases b.kind name <;> simp
  rw [hseed, kind_eq_model_iff]
  generalize (b.compilation.modelByName name).isSome = compiled
  generalize (b.compiledSeed name).isSome = seed
  by_cases hmodel : b.HasModelRecord name <;> by_cases hrecord : b.HasSeedRecord name <;>
    cases compiled <;> cases seed <;> simp [hmodel, hrecord]

/-! ## The report of a comparison -/

/-- `branch_diff`. -/
def branchDiff (startedAt finishedAt : String) : Except EngineError BranchDiffReport := do
  let rows ← b.rows
  let diffs ← b.diffs
  pure
    { candidateRef := b.request.candidateRef
      baseRef := b.request.baseRef
      candidateHash := b.request.candidateHash
      baseHash := b.request.baseHash
      datasets := b.datasets
      schemaChanges := b.schemaChanges
      rows
      diffs
      deep := b.request.deep
      passed := diffs.all DiffReport.passed
      startedAt
      finishedAt }

end BranchComparison

end PhloTransform.Engine
