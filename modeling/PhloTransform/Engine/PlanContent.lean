import PhloTransform.Engine.SourceStates

/-!
# What a plan says

The content of a plan: its models with their versions, actions and full-rebuild flags, and
its seeds with their actions.  Two recompiles of a workspace are planned alike when the
planned models have one hash and one schema verdict in both.

Main results:

- Theorem `Planning.content_congr`: plans over two recompiles have one content.
- Theorem `Planning.plan_forced`: a forced plan over existing relations builds everything.
-/

namespace PhloTransform.Engine

open Core (Compilation CompiledModel CompiledSeed ModelId ModelVersion Relation)

/-- A row for each model and each seed. -/
structure PlanContent where
  models : List (ModelId × String × PlanAction × Bool)
  seeds : List (String × PlanAction)
deriving DecidableEq

/-- Name, version hash, action and full-rebuild flag. -/
def PlannedModel.content (model : PlannedModel) : ModelId × String × PlanAction × Bool :=
  (model.id, model.desiredVersion, model.action, model.fullRebuild)

def PlannedSeed.content (seed : PlannedSeed) : String × PlanAction :=
  (seed.name, seed.action)

def Plan.content (plan : Plan) : PlanContent where
  models := plan.models.map PlannedModel.content
  seeds := plan.seeds.map PlannedSeed.content

namespace Planning

/-- The same planning under other schema verdicts. -/
def withRebuilds (p : Planning) (forces : CompiledModel → Bool) : Planning :=
  { p with view := { p.view with schemaForcesRebuild := forces } }

theorem content_planId [Rfc3339] (p : Planning) (planId planId' : String) :
    (p.plan planId).map Plan.content = (p.plan planId').map Plan.content := by
  unfold Planning.plan
  cases p.view.relationsExist with
  | none => rfl
  | some exist =>
    simp only
    cases p.missingExcluded exist <;> rfl

section Congruence

variable [Rfc3339] {p : Planning} {versions versions' : ModelId → Option ModelVersion}
  {forces forces' : CompiledModel → Bool}

theorem decideModel_withRebuilds (exist : Relation → Bool) :
    ((p.withRebuilds forces).atVersions versions).decideModel exist =
      (p.atVersions versions).decideModel exist :=
  rfl

theorem plannedModel_content_congr {exist : Relation → Bool} {model : CompiledModel}
    (hmodel : model ∈ p.orderModels)
    (hhash : (Compilation.atVersion versions model).version.hash =
      (Compilation.atVersion versions' model).version.hash)
    (hforces : p.blocked = false →
      (model.config.materialization = .incremental → p.store.isSome = true) →
      forces (Compilation.atVersion versions model) =
        forces' (Compilation.atVersion versions' model)) :
    (((p.withRebuilds forces).atVersions versions).plannedModel exist
        (Compilation.atVersion versions model)).content =
      (((p.withRebuilds forces').atVersions versions').plannedModel exist
        (Compilation.atVersion versions' model)).content := by
  have haction : ((p.atVersions versions).decideModel exist
        (Compilation.atVersion versions model)).action =
      ((p.atVersions versions').decideModel exist
        (Compilation.atVersion versions' model)).action :=
    decideModel_congr hmodel hhash
  simp only [PlannedModel.content, plannedModel, decideModel_withRebuilds, haction, hhash,
    existsAt_atVersions]
  refine Prod.ext rfl (Prod.ext rfl (Prod.ext rfl ?_))
  cases hblocked : p.blocked with
  | true =>
    have hunknown : ((p.atVersions versions').decideModel exist
        (Compilation.atVersion versions' model)).action = .unknown := by
      have hblocked : (p.atVersions versions').blocked = true := hblocked
      simp [decideModel, hblocked]
    simp [hunknown]
  | false =>
    change (_ && (decide (model.config.materialization = .incremental) &&
      p.incrementalChanged model || _ && forces _)) =
        (_ && (decide (model.config.materialization = .incremental) &&
          p.incrementalChanged model || _ && forces' _))
    by_cases hstore : model.config.materialization = .incremental → p.store.isSome = true
    · rw [hforces hblocked hstore]
      rfl
    · -- Without records an incremental build is a full rebuild, whatever the schema says.
      rw [Classical.not_imp, Bool.not_eq_true, Option.isSome_eq_false_iff,
        Option.isNone_iff_eq_none] at hstore
      obtain ⟨hincremental, hstore⟩ := hstore
      have hchanged : p.incrementalChanged model = true := by
        simp [incrementalChanged, materialized, hstore]
      simp only [hincremental, hchanged, decide_true, Bool.and_self, Bool.true_or, Bool.and_true]
      rfl

theorem plannedSeed_atVersions (exist : Relation → Bool) :
    ((p.withRebuilds forces).atVersions versions).plannedSeed exist = p.plannedSeed exist := by
  funext seed
  rw [plannedSeed, plannedSeed, existsAt_atVersions]
  rfl

/-- Plans over two recompiles have one content when every planned model has one hash and,
without errors, one schema verdict; the verdict on an incremental model counts only when
records are kept. -/
theorem content_congr
    (hhash : ∀ model ∈ p.orderModels, (Compilation.atVersion versions model).version.hash =
      (Compilation.atVersion versions' model).version.hash)
    (hforces : p.blocked = false → ∀ model ∈ p.orderModels,
      (model.config.materialization = .incremental → p.store.isSome = true) →
      forces (Compilation.atVersion versions model) =
        forces' (Compilation.atVersion versions' model)) (planId planId' : String) :
    (((p.withRebuilds forces).atVersions versions).plan planId).map Plan.content =
      (((p.withRebuilds forces').atVersions versions').plan planId').map Plan.content := by
  have hview : ∀ forces versions,
      ((p.withRebuilds forces).atVersions versions).view.relationsExist =
        p.view.relationsExist := fun _ _ => rfl
  unfold Planning.plan
  rw [hview, hview]
  cases p.view.relationsExist with
  | none => rfl
  | some exist =>
    have hmissing : ∀ forces, (p.withRebuilds forces).missingExcluded exist =
      p.missingExcluded exist := fun _ => rfl
    simp only [missingExcluded_atVersions, hmissing]
    cases p.missingExcluded exist with
    | some read => rfl
    | none =>
      have horder : ∀ forces versions,
          ((p.withRebuilds forces).atVersions versions).orderModels =
            p.orderModels.map (Compilation.atVersion versions) := fun _ _ =>
        orderModels_atVersions _ _
      have hseeds : ∀ forces versions,
          ((p.withRebuilds forces).atVersions versions).neededSeeds = p.neededSeeds :=
        fun _ _ => neededSeeds_atVersions _ _
      simp only [Option.map_none, Except.map, Plan.content, horder, hseeds,
        plannedSeed_atVersions, List.map_map]
      congr 2
      apply List.map_congr_left
      intro model hmodel
      exact plannedModel_content_congr hmodel (hhash model hmodel)
        fun hblocked => hforces hblocked model hmodel

end Congruence

/-! ## Forced plans over existing relations -/

section Forced

variable (p : Planning)

theorem existsAt_all {relation : Relation} (h : relation ∈ p.probeRelations) :
    p.existsAt (fun _ => true) relation.display = true := by
  unfold existsAt
  cases hfind : p.probeRelations.find? fun other =>
      decide (other.display = relation.display) with
  | none =>
    have hnone := List.find?_eq_none.1 hfind relation h
    simp at hnone
  | some other => rfl

theorem missingExcluded_all : p.missingExcluded (fun _ => true) = none := by
  unfold missingExcluded
  cases hblocked : p.blocked with
  | true => rfl
  | false =>
    rw [if_neg (by simp), List.find?_eq_none]
    intro read hread
    have hprobe : read.2.target ∈ p.probeRelations := by
      rw [probeRelations, hblocked, if_neg (by simp)]
      exact List.mem_append_left _ (List.mem_append_left _ (List.mem_map_of_mem hread))
    simp [p.existsAt_all hprobe]

variable [Rfc3339]

/-- The row of a model in a forced plan. -/
def forcedRow (model : CompiledModel) : ModelId × String × PlanAction × Bool :=
  (model.id, model.version.hash, if p.blocked then .unknown else .build,
    !p.blocked && (decide (model.config.materialization = .incremental) &&
      p.incrementalChanged model || p.view.schemaForcesRebuild model))

variable {p}

theorem plannedModel_forced (hforce : p.force = true) {model : CompiledModel}
    (hmodel : model ∈ p.orderModels) :
    (p.plannedModel (fun _ => true) model).content = p.forcedRow model := by
  unfold PlannedModel.content plannedModel forcedRow decideModel
  cases hblocked : p.blocked with
  | true => simp
  | false =>
    have hprobe : model.target ∈ p.probeRelations := by
      rw [probeRelations, hblocked, if_neg (by simp)]
      exact List.mem_append_right _ (List.mem_map_of_mem hmodel)
    have hexists := p.existsAt_all hprobe
    have hbuild : (Planner.decide p.view.name p.store.isSome p.force p.environment model
        (p.evidence (fun _ => true) model)).action = .build := by
      rw [Planner.decide, if_pos hforce]
      rfl
    simp [hbuild, hexists]

theorem plannedSeed_forced (hforce : p.force = true) (seed : CompiledSeed) :
    (p.plannedSeed (fun _ => true) seed).content =
      (seed.name, if p.blocked then .unknown else .build) := by
  simp [PlannedSeed.content, plannedSeed, Planner.decideSeed, hforce]

/-- A forced plan over existing relations builds everything, unless it is blocked. -/
theorem plan_forced (hforce : p.force = true)
    (hexist : p.view.relationsExist = some fun _ => true) (planId : String) :
    (p.plan planId).map Plan.content =
      .ok { models := p.orderModels.map p.forcedRow
            seeds := p.neededSeeds.map fun seed =>
              (seed.name, if p.blocked then .unknown else .build) } := by
  unfold Planning.plan
  simp only [hexist, missingExcluded_all, Except.map, Plan.content, List.map_map]
  congr 2
  · exact List.map_congr_left fun model hmodel => plannedModel_forced hforce hmodel
  · exact List.map_congr_left fun seed _ => plannedSeed_forced hforce seed

/-- A plan without models and seeds says nothing, unless the probes fail. -/
theorem plan_of_nothing (horder : p.orderModels = []) (hseeds : p.neededSeeds = [])
    (hreads : p.excludedReads = []) (planId : String) :
    (p.plan planId).map Plan.content =
      match p.view.relationsExist with
      | none => .error .adapter
      | some _ => .ok { models := [], seeds := [] } := by
  have hmissing : ∀ exist, p.missingExcluded exist = none := by
    intro exist
    simp [missingExcluded, hreads]
  unfold Planning.plan
  cases p.view.relationsExist with
  | none => rfl
  | some exist => simp [hmissing, Except.map, Plan.content, horder, hseeds]

end Forced

/-! ## Selected models -/

theorem subset_closeOver (compilation : Compilation) (excluded : List ModelId) (fuel : Nat)
    (included frontier : List ModelId) :
    included ⊆ closeOver compilation excluded fuel included frontier := by
  induction fuel generalizing included frontier with
  | zero => exact List.Subset.refl _
  | succ fuel ih =>
    cases frontier with
    | nil => exact List.Subset.refl _
    | cons id frontier =>
      exact List.Subset.trans (List.subset_append_left _ _) (ih _ _)

theorem mem_plannedIds {p : Planning} {id : ModelId} (h : id ∈ p.selection.members) :
    id ∈ p.plannedIds := by
  rw [plannedIds, dependencyClosureExcluding, List.mem_insertionSort]
  exact subset_closeOver _ _ _ _ _ (List.mem_dedup.2 h)

/-- A selected model that produces a relation is planned. -/
theorem mem_orderModels {p : Planning} {model : CompiledModel}
    (hmodel : model ∈ p.compilation.models) (hplannable : model.config.materialization ≠ .ephemeral)
    (hselected : model.id ∈ p.selection.members) : model ∈ p.orderModels := by
  have hfound := p.compilation.model_of_mem hmodel
  have hplanned := mem_plannedIds hselected
  have horder : model.id ∈ p.compilation.topologicalOrder.getD p.plannedIds := by
    cases horder : p.compilation.topologicalOrder with
    | none => exact hplanned
    | some order =>
      exact Library.DependencyGraph.mem_topologicalOrder horder (List.mem_map_of_mem hmodel)
  refine List.mem_filterMap.2 ⟨model.id, List.mem_filter.2 ⟨horder, ?_⟩, hfound⟩
  simp [hplanned, isPlannable, hfound, hplannable]

end Planning
end PhloTransform.Engine
