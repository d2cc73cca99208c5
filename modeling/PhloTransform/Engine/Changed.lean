import PhloTransform.Engine.Runner

/-!
# The `changed` selector

A model counts as changed when the record of the environment is missing, of
another version or of another target.  The planner consults the environment's
scope, into which the records of a second environment may be folded; the selector
reads the one environment.

Main results:

- Theorem `Planning.changed_covers_iff`: when the selector contains every model
  that the planner works on because of its record.
-/

namespace PhloTransform.Engine

open Core (Compilation CompiledModel ModelId Relation)

/-- The record is of the desired version and of this target. -/
def recordMatches (model : CompiledModel) (record : MaterializedRecord) : Bool :=
  decide (record.version.hash = model.version.hash) &&
    decide (record.target = model.target.display)

/-- The model counts as changed; without a store nothing is proven unchanged. -/
def isChanged (state : Option Store) (environment : Option String) (model : CompiledModel) :
    Bool :=
  match state with
  | some store =>
    match store.materializedVersion model.id.logicalName environment with
    | some record => !recordMatches model record
    | none => true
  | none => true

/-- `changed_models`. -/
def changedModels (compilation : Compilation) (state : Option Store)
    (environment : Option String) : List ModelId :=
  ((compilation.models.filter fun model =>
    decide (model.config.materialization ≠ .ephemeral) &&
      isChanged state environment model).map CompiledModel.id).insertionSort (· ≤ ·)

theorem mem_changedModels {compilation : Compilation} {state : Option Store}
    {environment : Option String} {model : CompiledModel} (h : model ∈ compilation.models) :
    model.id ∈ changedModels compilation state environment ↔
      model.config.materialization ≠ .ephemeral ∧ isChanged state environment model = true := by
  simp only [changedModels, List.mem_insertionSort, List.mem_map, List.mem_filter,
    Bool.and_eq_true, decide_eq_true_eq]
  constructor
  · rintro ⟨other, ⟨hother, hkept⟩, hid⟩
    obtain rfl : other = model :=
      List.inj_on_of_nodup_map compilation.models_nodup hother h hid
    exact hkept
  · exact fun hkept => ⟨model, ⟨h, hkept⟩, rfl⟩

namespace Planning

variable [Rfc3339] (p : Planning)
variable {model : CompiledModel}
variable {exist : Relation → Bool}

/-- The planner does not skip the model, and the record it consults is missing, of
another version or of another target. -/
def WorksOn (exist : Relation → Bool) (model : CompiledModel) : Prop :=
  p.blocked = false ∧ (p.decideModel exist model).action ≠ .skip ∧
    ∀ record, p.materialized model.id.logicalName = some record →
      recordMatches model record = false

/-- The environment's own record matches, but a strictly later one folded in from
the other environment does not. -/
def Shadowed (model : CompiledModel) : Prop :=
  ∃ store folded own other, p.store = some store ∧
    foldedEnvironment p.environment = some folded ∧
    store.materializedVersion model.id.logicalName p.environment = some own ∧
    recordMatches model own = true ∧
    store.materializedVersion model.id.logicalName folded = some other ∧
    recordMatches model other = false ∧
    cmpRfc3339 own.materializedAt other.materializedAt = .lt

variable {p}

theorem materialized_eq (hopen : p.blocked = false) {store : Store}
    (hstore : p.store = some store) (modelId : String) :
    p.materialized modelId = mergeOne MaterializedRecord.materializedAt
      (store.materializedVersion modelId p.environment)
      ((foldedEnvironment p.environment).bind (store.materializedVersion modelId)) := by
  simp [materialized, hopen, hstore, materializedScope_apply]

theorem worksOn_iff (hopen : p.blocked = false) :
    p.WorksOn exist model ↔ ∀ record, p.materialized model.id.logicalName = some record →
      recordMatches model record = false := by
  refine ⟨fun h => h.2.2, fun h => ⟨hopen, fun hskip => ?_, h⟩⟩
  simp only [decideModel, hopen, Bool.false_eq_true, if_false] at hskip
  obtain ⟨-, -, record, hcurrent, -, htarget, -, hversion⟩ :=
    Planner.decide_skip_iff.1 hskip
  have hmismatch := h record hcurrent
  simp [recordMatches, htarget, hversion] at hmismatch

/-- A model that the planner works on because of its record is unchanged for the
selector exactly when its own record is shadowed. -/
theorem shadowed_iff (hopen : p.blocked = false) :
    p.Shadowed model ↔ p.WorksOn exist model ∧ isChanged p.store p.environment model = false := by
  rw [worksOn_iff hopen]
  constructor
  · rintro ⟨store, folded, own, other, hstore, hfolded, hown, hmatch, hother, hmismatch, hlt⟩
    refine ⟨fun record hrecord => ?_, by simp [isChanged, hstore, hown, hmatch]⟩
    rw [materialized_eq hopen hstore, hown, hfolded, Option.bind_some, hother] at hrecord
    have hlater : later MaterializedRecord.materializedAt (some own) other = other := by
      simp [later, hlt]
    simp only [mergeOne, hlater, Option.some.injEq] at hrecord
    exact hrecord ▸ hmismatch
  · rintro ⟨hworks, hunchanged⟩
    cases hstore : p.store with
    | none => simp [isChanged, hstore] at hunchanged
    | some store =>
      cases hown : store.materializedVersion model.id.logicalName p.environment with
      | none => simp [isChanged, hstore, hown] at hunchanged
      | some own =>
        have hmatch : recordMatches model own = true := by
          simpa [isChanged, hstore, hown] using hunchanged
        cases hmerged : p.materialized model.id.logicalName with
        | none =>
          rw [materialized_eq hopen hstore, hown] at hmerged
          unfold mergeOne at hmerged
          split at hmerged <;> cases hmerged
        | some record =>
          have hmismatch := hworks record hmerged
          rw [materialized_eq hopen hstore, hown] at hmerged
          rcases mergeOne_cases hmerged with ⟨hsame, -⟩ | ⟨hother, hlt⟩
          · obtain rfl := Option.some.inj hsame
            simp [hmatch] at hmismatch
          · obtain ⟨folded, hfolded, hother⟩ := Option.bind_eq_some_iff.1 hother
            exact ⟨store, folded, own, record, hstore, hfolded, hown, hmatch, hother,
              hmismatch, hlt own rfl⟩

omit [Rfc3339] in
theorem not_ephemeral_of_mem_orderModels (h : model ∈ p.orderModels) :
    model.config.materialization ≠ .ephemeral := by
  obtain ⟨id, hid, hmodel⟩ := List.mem_filterMap.1 h
  have hplannable := (List.mem_filter.1 hid).2
  simp only [Bool.and_eq_true, isPlannable, hmodel, decide_eq_true_eq] at hplannable
  exact hplannable.2

/-- The selector contains every model that the planner works on because of its
record, exactly when no planned model's own record is shadowed. -/
theorem changed_covers_iff (p : Planning) (exist : Relation → Bool) :
    (∀ model ∈ p.orderModels, p.WorksOn exist model →
        model.id ∈ changedModels p.compilation p.store p.environment) ↔
      p.blocked = true ∨ ∀ model ∈ p.orderModels, ¬ p.Shadowed model := by
  cases hblocked : p.blocked with
  | true => simp [WorksOn, hblocked]
  | false =>
    simp only [Bool.false_eq_true, false_or]
    refine forall₂_congr fun model hmodel => ?_
    have hshadowed : p.Shadowed model ↔ p.WorksOn exist model ∧
        isChanged p.store p.environment model = false := shadowed_iff hblocked
    rw [mem_changedModels (mem_compilation_of_mem_orderModels hmodel), hshadowed, not_and,
      Bool.not_eq_false]
    exact imp_congr_right fun _ =>
      and_iff_right (not_ephemeral_of_mem_orderModels hmodel)

end Planning

/-! ## A small state -/

namespace Sample

def rawRecord (environment : Option String) (hash materializedAt : String) :
    MaterializedRecord where
  modelId := Core.Sample.rawModel.id.logicalName
  environment := environment
  version := { (default : Core.ModelVersion) with hash := hash }
  target := Core.Sample.rawModel.target.display
  incrementalStrategy := none
  incrementalKey := none
  adapter := some "duckdb"
  outputIdentity := none
  runId := "run"
  materializedAt := materializedAt

/-- The default environment holds the desired version, and `main` was built a day
later at another one. -/
def rebuiltOnMain : Store :=
  letI := januaryClock
  (Store.empty.recordMaterialized
    (rawRecord none "raw" "2026-01-01T00:00:00.000000000Z")).recordMaterialized
      (rawRecord (some "main") "old" "2026-01-02T00:00:00.000000000Z")

def planningOnMain : Planning :=
  { planning Core.Sample.chain [Core.Sample.rawModel.id, Core.Sample.martModel.id] with
    store := some rebuiltOnMain }

end Sample

/-- The planner rebuilds the first table, and the selector does not contain it. -/
theorem changed_misses_raw :
    Core.Sample.rawModel ∈ Sample.planningOnMain.orderModels ∧
      @Planning.WorksOn januaryClock Sample.planningOnMain (fun _ => true)
        Core.Sample.rawModel ∧
      Core.Sample.rawModel.id ∉ changedModels Sample.planningOnMain.compilation
        Sample.planningOnMain.store Sample.planningOnMain.environment := by
  have horder : Core.Sample.rawModel.id ∈ Sample.planningOnMain.order := by decide +kernel
  have haction : (@Planning.decideModel Sample.planningOnMain januaryClock (fun _ => true)
      Core.Sample.rawModel).action ≠ .skip := by
    decide +kernel
  have hrecord : (@Planning.materialized Sample.planningOnMain januaryClock
      Core.Sample.rawModel.id.logicalName).map (recordMatches Core.Sample.rawModel) =
        some false := by
    decide +kernel
  refine ⟨List.mem_filterMap.2 ⟨_, horder, Core.Compilation.model_of_mem
    (List.mem_cons_self ..)⟩, ⟨rfl, haction, fun record hmem => ?_⟩, by decide +kernel⟩
  rw [hmem] at hrecord
  exact Option.some.inj hrecord

end PhloTransform.Engine
