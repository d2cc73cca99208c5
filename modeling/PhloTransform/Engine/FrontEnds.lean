import PhloTransform.Engine.Environment
import PhloTransform.Engine.PlanContent
import PhloTransform.Engine.Workspace

/-!
# Plans of the two front ends

The command line and the daemon resolve an environment through the same context and plan
with the same planner.  Where the environment stands for a candidate catalog, both plan the
enriched compile of the workspace.  Where it does not, the command line enriches its own
compile, and the daemon plans its snapshot as it was compiled.

Main results:

- Theorem `PlanSession.alike_iff`: the two plan alike exactly when a candidate is resolved or
  what the adapter reports about the sources leaves the planned models as they are.
-/

namespace PhloTransform.Engine

open Core (CollisionFree Compilation CompiledModel ModelId ModelVersion Relation Sha256 SourceId
  StaticSchemaProvider StaticSourceStateProvider collisionFree_quotedDigest quotedDigest)
open Library (Program Table)

/-! ## Planning through a front end -/

/-- What both front ends are started with, and the environment they are asked for. -/
structure PlanSession where
  workspace : Workspace
  warehouse : Warehouse
  context : EnvironmentContext
  environment : Option String
  baseRef : String
  mode : EnvironmentMode

/-- What a plan is asked for, and what the warehouse holds. -/
structure PlanRequest where
  selection : Selection
  force : Bool
  relationsExist : Option (Relation → Bool)
  outputIdentity : Relation → Option String

namespace PlanSession

variable (s : PlanSession)

/-- The default catalog of the workspace's own compile: `--catalog`, else the project's. -/
def ownCatalog : Option String :=
  s.context.catalog.or s.workspace.catalog

section FrontEnds

variable [Sha256]

/-- The compilation that the command line plans. -/
def cliCompilation (target : EnvironmentTarget) : Except EngineError TypedCompilation :=
  match target.catalog with
  | some catalog => s.workspace.compileForCatalog (some catalog) (some s.warehouse) true
  | none => .ok (s.workspace.enrichSources s.warehouse s.ownCatalog)

/-- The compilation that the daemon plans: its snapshot, without a candidate. -/
def daemonCompilation (target : EnvironmentTarget) : Except EngineError TypedCompilation :=
  match target.catalog with
  | some catalog => s.workspace.compileForCatalog (some catalog) (some s.warehouse) true
  | none => .ok (s.workspace.compile s.ownCatalog)

omit [Sha256] in
/-- What the planner reads of a compilation. -/
def planning (request : PlanRequest) (store : Option Store) (compiled : TypedCompilation) :
    Planning where
  compilation := compiled.compilation
  selection := request.selection
  environment := s.environment
  force := request.force
  view :=
    { name := s.warehouse.name
      relationsExist := request.relationsExist
      outputIdentity := request.outputIdentity
      schemaForcesRebuild := fun model =>
        demandsRebuild (compiled.analysis.schema model.id)
          (s.warehouse.relationColumns model.target) }
  store := store

variable [Rfc3339]

/-- Resolve the environment, compile, and plan over the state store. -/
def planThrough (compile : EnvironmentTarget → Except EngineError TypedCompilation)
    (request : PlanRequest) (planId : String) : Program World EngineError Plan := do
  let target ← s.context.resolve s.environment s.baseRef s.mode
  let compiled ← Program.ofExcept (compile target)
  let w ← Program.get
  let store := if s.context.stateful then some w.store else none
  Program.ofExcept ((s.planning request store compiled).plan planId)

/-- `plan`, `apply` and `run` of the command line. -/
def cliPlan (request : PlanRequest) (planId : String) : Program World EngineError Plan :=
  s.planThrough s.cliCompilation request planId

/-- The plan endpoint and the run operation of the daemon. -/
def daemonPlan (request : PlanRequest) (planId : String) : Program World EngineError Plan :=
  s.planThrough s.daemonCompilation request planId

/-- The daemon and the command line plan alike: the same models with the same versions,
actions and full-rebuild flags, and the same seed actions. -/
def Alike : Prop :=
  ∀ (request : PlanRequest) (planId planId' : String) (w : World),
    (s.daemonPlan request planId w).1.map Plan.content =
      (s.cliPlan request planId' w).1.map Plan.content

end FrontEnds

/-! ## When a candidate is resolved -/

/-- The environment has no candidate: none is named, it is the base, or there is no
Nessie. -/
def IsLocal : Prop :=
  s.environment = none ∨ s.environment = some s.baseRef ∨ s.context.nessie = false

section Resolving

variable [Sha256] [Rfc3339] {s}

theorem resolve_of_isLocal (h : s.IsLocal) :
    s.context.resolve s.environment s.baseRef s.mode =
      (pure { catalog := none, setup := none } : Program World EngineError EnvironmentTarget) := by
  unfold EnvironmentContext.resolve
  rcases h with hnone | hbase | hnessie
  · rw [hnone]
  · rw [hbase]
    simp
  · cases s.environment with
    | none => rfl
    | some environment => simp [hnessie]

theorem catalog_of_not_isLocal (h : ¬ s.IsLocal) {w w' : World} {target : EnvironmentTarget}
    (hresolve : s.context.resolve s.environment s.baseRef s.mode w = (.ok target, w')) :
    ∃ catalog, target.catalog = some catalog := by
  unfold EnvironmentContext.resolve at hresolve
  simp only [IsLocal, not_or, Bool.not_eq_false] at h
  obtain ⟨hsome, hbase, hnessie⟩ := h
  cases henvironment : s.environment with
  | none => exact absurd henvironment hsome
  | some environment =>
    have hne : environment ≠ s.baseRef := fun heq => hbase (by rw [henvironment, heq])
    rw [henvironment] at hresolve
    simp only [hne, hnessie, Bool.true_eq_false, or_self, if_false] at hresolve
    cases hadapter : s.context.adapter with
    | none =>
      rw [hadapter] at hresolve
      cases congrArg Prod.fst hresolve
    | some adapter =>
      cases huri : s.context.nessieUri with
      | none =>
        rw [hadapter, huri] at hresolve
        cases congrArg Prod.fst hresolve
      | some uri =>
        rw [hadapter, huri] at hresolve
        cases hmode : s.mode with
        | ensure =>
          rw [hmode] at hresolve
          obtain ⟨setup, w'', -, hpure⟩ := Program.bind_eq_ok.1 hresolve
          cases hpure
          exact ⟨_, rfl⟩
        | readOnly =>
          rw [hmode] at hresolve
          obtain ⟨prior, w'', -, hrest⟩ := Program.bind_eq_ok.1 hresolve
          split at hrest
          · cases congrArg Prod.fst hrest
          · cases hrest
            exact ⟨_, rfl⟩

theorem content_of_not_isLocal (h : ¬ s.IsLocal) (request : PlanRequest)
    (planId planId' : String) (w : World) :
    (s.daemonPlan request planId w).1.map Plan.content =
      (s.cliPlan request planId' w).1.map Plan.content := by
  unfold daemonPlan cliPlan planThrough
  rw [Program.bind_run, Program.bind_run]
  rcases hresolve : s.context.resolve s.environment s.baseRef s.mode w with ⟨error | target, w'⟩
  · rfl
  · obtain ⟨catalog, hcatalog⟩ := catalog_of_not_isLocal h hresolve
    simp only [daemonCompilation, cliCompilation, hcatalog]
    cases s.workspace.compileForCatalog (some catalog) (some s.warehouse) true with
    | error error => rfl
    | ok compiled => exact Planning.content_planId _ planId planId'

theorem planThrough_of_isLocal (h : s.IsLocal)
    (compile : EnvironmentTarget → Except EngineError TypedCompilation)
    (compiled : TypedCompilation)
    (hcompile : compile { catalog := none, setup := none } = .ok compiled)
    (request : PlanRequest) (planId : String) (w : World) :
    (s.planThrough compile request planId w).1 =
      (s.planning request (if s.context.stateful then some w.store else none)
        compiled).plan planId := by
  unfold planThrough
  rw [resolve_of_isLocal h, Program.bind_of_ok (Program.pure_run _ w), hcompile,
    Program.bind_of_ok (Program.ofExcept_run _ w), Program.bind_of_ok (Program.get_run w),
    Program.ofExcept_run]

end Resolving

/-! ## What the reports leave as it is -/

/-- The workspace's own compile, short of the analysis. -/
def base : Compilation :=
  s.workspace.resolved s.ownCatalog

/-- The states that the adapter reports for the sources. -/
def states : StaticSourceStateProvider :=
  s.workspace.states s.warehouse s.ownCatalog

/-- The analysis under the schemas that the adapter reports. -/
def reported : Analysis :=
  s.workspace.analyse (s.workspace.schemas s.warehouse s.ownCatalog)

/-- The analysis under the declared schemas alone. -/
def declared : Analysis :=
  s.workspace.analyse Table.empty

/-- What the planner reads of the own compile when the analysis has, or has not, errors. -/
def checkedPlanning (request : PlanRequest) (store : Option Store) (clean : Bool) : Planning :=
  s.planning request store { compilation := s.base.checked clean, analysis := s.declared }

/-- No selection plans a model or a seed. -/
def PlansNothing : Prop :=
  ∀ request, (s.checkedPlanning request none true).orderModels = [] ∧
    (s.checkedPlanning request none true).neededSeeds = []

/-- The reports change nothing that a plan says: no model that produces a relation draws on
a source with a state, the reported schemas cause or cure no error, and they change no
verdict on the schema of an existing target. -/
structure Quiet : Prop where
  states : ∀ order, s.base.topologicalOrder = some order →
    ∀ model ∈ s.base.models, model.config.materialization ≠ .ephemeral →
      ∀ source, s.base.DrawsOn model.id source → (s.states.sourceState source).getD "" = ""
  clean : s.base.isOk = true → s.reported.clean = s.declared.clean ∨ s.PlansNothing
  rebuilds : s.base.isOk = true → s.reported.clean = true → s.declared.clean = true →
    ∀ model ∈ s.base.models, model.config.materialization ≠ .ephemeral →
      (model.config.materialization = .incremental → s.context.stateful = true) →
        demandsRebuild (s.reported.schema model.id) (s.warehouse.relationColumns model.target) =
          demandsRebuild (s.declared.schema model.id) (s.warehouse.relationColumns model.target)

variable {s}

theorem closeOver_checked (base : Compilation) (clean : Bool) (excluded : List ModelId)
    (fuel : Nat) (included frontier : List ModelId) :
    closeOver (base.checked clean) excluded fuel included frontier =
      closeOver base excluded fuel included frontier := by
  induction fuel generalizing included frontier with
  | zero => rfl
  | succ fuel ih =>
    cases frontier with
    | nil => rfl
    | cons id frontier =>
      simp only [closeOver, ih]
      rfl

theorem plannedIds_checkedPlanning (request : PlanRequest) (store : Option Store) (clean : Bool) :
    (s.checkedPlanning request store clean).plannedIds =
      dependencyClosureExcluding s.base request.selection.members request.selection.excluded := by
  simp only [Planning.plannedIds, dependencyClosureExcluding, checkedPlanning, planning,
    closeOver_checked]
  rfl

theorem orderModels_checkedPlanning (request : PlanRequest) (store : Option Store) (clean : Bool) :
    (s.checkedPlanning request store clean).orderModels =
      (s.checkedPlanning request none true).orderModels := by
  simp only [Planning.orderModels, Planning.order, plannedIds_checkedPlanning]
  rfl

theorem neededSeeds_checkedPlanning (request : PlanRequest) (store : Option Store) (clean : Bool) :
    (s.checkedPlanning request store clean).neededSeeds =
      (s.checkedPlanning request none true).neededSeeds := by
  simp only [Planning.neededSeeds, Planning.seedSources, plannedIds_checkedPlanning]
  rfl

theorem checked_congr {clean clean' : Bool}
    (h : (s.base.isOk && clean) = (s.base.isOk && clean')) :
    s.base.checked clean = s.base.checked clean' := by
  simp only [Compilation.checked, h]

/-- A planned model is a model of the workspace that produces a relation. -/
theorem mem_base_of_mem_orderModels {request : PlanRequest} {store : Option Store} {clean : Bool}
    {model : CompiledModel} (h : model ∈ (s.checkedPlanning request store clean).orderModels) :
    model ∈ s.base.models ∧ model.config.materialization ≠ .ephemeral := by
  obtain ⟨id, hid, hfound⟩ := List.mem_filterMap.1 h
  refine ⟨Compilation.mem_of_model hfound, ?_⟩
  have hplannable := (List.mem_filter.1 hid).2
  rw [Bool.and_eq_true, Planning.isPlannable, hfound, decide_eq_true_eq, decide_eq_true_eq]
    at hplannable
  exact hplannable.2

section Content

variable [Sha256]
variable {model : CompiledModel}

/-- The versions of the own compile under reported states. -/
def versionsUnder (s : PlanSession) (states : StaticSourceStateProvider) :
    ModelId → Option ModelVersion :=
  s.base.modelVersions s.workspace.lowered states.sourceState

omit [Sha256] in
/-- The verdicts of an analysis on the schemas of existing targets. -/
def verdictsOf (s : PlanSession) (analysis : Analysis) (model : CompiledModel) : Bool :=
  demandsRebuild (analysis.schema model.id) (s.warehouse.relationColumns model.target)

omit [Sha256] in
def storeOf (s : PlanSession) (w : World) : Option Store :=
  if s.context.stateful then some w.store else none

/-- The planning of the own compile under an analysis and states. -/
def ownPlanning (s : PlanSession) (request : PlanRequest) (w : World) (analysis : Analysis)
    (states : StaticSourceStateProvider) : Planning :=
  ((s.checkedPlanning request (s.storeOf w) analysis.clean).withRebuilds
    (s.verdictsOf analysis)).atVersions (s.versionsUnder states)

theorem orderModels_ownPlanning (request : PlanRequest) (w : World) (analysis : Analysis)
    (states : StaticSourceStateProvider) :
    (s.ownPlanning request w analysis states).orderModels =
      (s.checkedPlanning request none true).orderModels.map
        (Compilation.atVersion (s.versionsUnder states)) := by
  rw [ownPlanning, Planning.orderModels_atVersions,
    ← orderModels_checkedPlanning request (s.storeOf w) analysis.clean]
  rfl

theorem neededSeeds_ownPlanning (request : PlanRequest) (w : World) (analysis : Analysis)
    (states : StaticSourceStateProvider) :
    (s.ownPlanning request w analysis states).neededSeeds =
      (s.checkedPlanning request none true).neededSeeds := by
  rw [ownPlanning, Planning.neededSeeds_atVersions,
    ← neededSeeds_checkedPlanning request (s.storeOf w) analysis.clean]
  rfl

theorem versionsUnder_of_quiet (hquiet : s.Quiet) (hmodel : model ∈ s.base.models)
    (hproduces : model.config.materialization ≠ .ephemeral) :
    s.versionsUnder s.states model.id = s.versionsUnder Table.empty model.id := by
  unfold versionsUnder
  cases horder : s.base.topologicalOrder with
  | none => simp only [Compilation.modelVersions, horder, Option.getD_none, List.foldl_nil]
  | some order =>
    exact Compilation.modelVersions_of_blank (hquiet.states order horder model hmodel hproduces)

variable [Rfc3339]

theorem cliPlan_of_isLocal (h : s.IsLocal) (request : PlanRequest) (planId : String) (w : World) :
    (s.cliPlan request planId w).1 = (s.ownPlanning request w s.reported s.states).plan planId :=
  planThrough_of_isLocal h s.cliCompilation
    (s.workspace.enrichSources s.warehouse s.ownCatalog) rfl request planId w

theorem daemonPlan_of_isLocal (h : s.IsLocal) (request : PlanRequest) (planId : String)
    (w : World) :
    (s.daemonPlan request planId w).1 =
      (s.ownPlanning request w s.declared Table.empty).plan planId :=
  planThrough_of_isLocal h s.daemonCompilation (s.workspace.compile s.ownCatalog) rfl request
    planId w

/-! ## Sufficiency -/

omit [Sha256] [Rfc3339] in
theorem ephemeral_of_plansNothing (h : s.PlansNothing) (hmodel : model ∈ s.base.models) :
    model.config.materialization = .ephemeral := by
  by_contra hproduces
  let request : PlanRequest :=
    { selection := { members := [model.id], excluded := [] }, force := true,
      relationsExist := none, outputIdentity := fun _ => none }
  have hmem : model ∈ (s.checkedPlanning request none true).orderModels :=
    Planning.mem_orderModels hmodel hproduces (List.mem_singleton_self _)
  rw [(h request).1] at hmem
  cases hmem

omit [Sha256] [Rfc3339] in
theorem excludedReads_of_plansNothing (h : s.PlansNothing) (request : PlanRequest)
    (store : Option Store) (clean : Bool) :
    (s.checkedPlanning request store clean).excludedReads = [] := by
  refine List.flatMap_eq_nil_iff.2 fun id _ => List.filterMap_eq_nil_iff.2 fun dependency _ => ?_
  split
  · cases hfound : (s.checkedPlanning request store clean).compilation.model dependency with
    | none => rfl
    | some excluded =>
      have hmem : excluded ∈ s.base.models := Compilation.mem_of_model hfound
      simp [ephemeral_of_plansNothing h hmem]
  · rfl

/-- Where nothing is planned, every plan that is made is empty. -/
theorem plan_of_plansNothing (h : s.PlansNothing) (request : PlanRequest) (w : World)
    (analysis : Analysis) (states : StaticSourceStateProvider) (planId : String) :
    ((s.ownPlanning request w analysis states).plan planId).map Plan.content =
      match request.relationsExist with
      | none => .error .adapter
      | some _ => .ok { models := [], seeds := [] } := by
  apply Planning.plan_of_nothing
  · rw [orderModels_ownPlanning, (h request).1, List.map_nil]
  · rw [neededSeeds_ownPlanning, (h request).2]
  · rw [ownPlanning, Planning.excludedReads_atVersions]
    exact congrArg _ (excludedReads_of_plansNothing h request (s.storeOf w) analysis.clean)

theorem content_of_quiet (hquiet : s.Quiet) (request : PlanRequest) (w : World)
    (planId planId' : String) :
    ((s.ownPlanning request w s.declared Table.empty).plan planId).map Plan.content =
      ((s.ownPlanning request w s.reported s.states).plan planId').map Plan.content := by
  by_cases hok : (s.base.isOk && s.declared.clean) = (s.base.isOk && s.reported.clean)
  · have hchecked : s.checkedPlanning request (s.storeOf w) s.declared.clean =
        s.checkedPlanning request (s.storeOf w) s.reported.clean := by
      rw [checkedPlanning, checkedPlanning, checked_congr hok]
    rw [ownPlanning, ownPlanning, hchecked]
    apply Planning.content_congr
    · intro model hmodel
      obtain ⟨hmem, hproduces⟩ := mem_base_of_mem_orderModels hmodel
      simp only [Compilation.atVersion, versionsUnder_of_quiet hquiet hmem hproduces]
    · intro hblocked model hmodel hincremental
      obtain ⟨hmem, hproduces⟩ := mem_base_of_mem_orderModels hmodel
      have hclean : (s.base.isOk && s.reported.clean) = true := by
        simpa [Planning.blocked, checkedPlanning, planning] using hblocked
      rw [hclean, Bool.and_eq_true] at hok
      rw [Bool.and_eq_true] at hclean
      refine (hquiet.rebuilds hclean.1 hclean.2 hok.2 model hmem hproduces fun h => ?_).symm
      have hstore : (s.storeOf w).isSome = true := hincremental h
      by_contra hstateful
      simp [storeOf, hstateful] at hstore
  · -- Only one of the two compiles has errors, but then there is nothing to plan.
    have hbase : s.base.isOk = true := by
      cases hbase : s.base.isOk with
      | true => rfl
      | false => simp [hbase] at hok
    have hnothing : s.PlansNothing := by
      apply (hquiet.clean hbase).resolve_left
      intro hclean
      rw [hclean] at hok
      exact hok rfl
    rw [plan_of_plansNothing hnothing, plan_of_plansNothing hnothing]

/-! ## Necessity -/

omit [Sha256] [Rfc3339] in
/-- Force what a selection plans, over existing relations. -/
def forcing (selection : Selection) : PlanRequest where
  selection := selection
  force := true
  relationsExist := some fun _ => true
  outputIdentity _ := none

/-- Front ends that plan alike say the same of whatever is forced. -/
theorem forcedRow_of_alike (hlocal : s.IsLocal) (halike : s.Alike) (selection : Selection)
    (w : World) :
    let cli := s.ownPlanning (forcing selection) w s.reported s.states
    let daemon := s.ownPlanning (forcing selection) w s.declared Table.empty
    (∀ model ∈ (s.checkedPlanning (forcing selection) none true).orderModels,
      daemon.forcedRow (Compilation.atVersion (s.versionsUnder Table.empty) model) =
        cli.forcedRow (Compilation.atVersion (s.versionsUnder s.states) model)) ∧
      ∀ seed ∈ (s.checkedPlanning (forcing selection) none true).neededSeeds,
        (if daemon.blocked then PlanAction.unknown else .build) =
          if cli.blocked then PlanAction.unknown else .build := by
  intro cli daemon
  have hcontent := halike (forcing selection) "" "" w
  rw [daemonPlan_of_isLocal hlocal, cliPlan_of_isLocal hlocal,
    Planning.plan_forced (p := daemon) rfl rfl, Planning.plan_forced (p := cli) rfl rfl,
    Except.ok.injEq, PlanContent.mk.injEq] at hcontent
  obtain ⟨hmodels, hseeds⟩ := hcontent
  rw [orderModels_ownPlanning, orderModels_ownPlanning, List.map_map, List.map_map] at hmodels
  rw [neededSeeds_ownPlanning, neededSeeds_ownPlanning] at hseeds
  constructor
  · exact fun model hmodel => List.map_inj_left.1 hmodels model hmodel
  · exact fun seed hseed => congrArg Prod.snd (List.map_inj_left.1 hseeds seed hseed)

section

omit [Sha256] [Rfc3339]

/-- A world with nothing but a state store. -/
def worldOf (store : Store) : World where
  references := Table.empty
  store := store
  evidence := []
  files := { environments := Table.empty, branchDiff := none, diff := false }
  faults := []
  supply := { evidenceId := fun _ => "", now := fun _ => "" }
  tick := 0

/-- A record of the model's incremental strategy and key. -/
def strategyRecord (environment : Option String) (model : CompiledModel) : MaterializedRecord where
  modelId := model.id.logicalName
  environment := environment
  version := default
  target := model.target.display
  incrementalStrategy := model.incrementalStrategy
  incrementalKey := model.incrementalKey
  adapter := none
  outputIdentity := none
  runId := ""
  materializedAt := ""

/-- The store that holds this record alone. -/
def strategyStore (environment : Option String) (model : CompiledModel) : Store :=
  { Store.empty with modelVersions := Table.empty.put (strategyRecord environment model) }

end

omit [Sha256] in
theorem materializedScope_strategyStore (environment : Option String) (model : CompiledModel) :
    materializedScope (strategyStore environment model) environment model.id.logicalName =
      some (strategyRecord environment model) := by
  have hget : ∀ other : Option String,
      (strategyStore environment model).materializedVersion model.id.logicalName other =
        if environmentColumn environment = environmentColumn other then
          some (strategyRecord environment model)
        else none := by
    intro other
    have hkey : (strategyRecord environment model).key = (model.id.logicalName,
        environmentColumn environment) := rfl
    simp [Store.materializedVersion, strategyStore, Table.get?_put, hkey]
  rw [materializedScope_apply, hget, if_pos rfl]
  apply mergeOne_of_not_lt
  intro record hrecord
  obtain ⟨folded, -, hfolded⟩ := Option.bind_eq_some_iff.1 hrecord
  rw [hget] at hfolded
  split at hfolded
  · cases hfolded
    simp [cmpRfc3339_self]
  · cases hfolded

/-- Without a difference in any plan, the planned models draw on blank sources. -/
theorem states_of_alike (hsha : CollisionFree) (hlocal : s.IsLocal) (halike : s.Alike)
    {order : List ModelId} (horder : s.base.topologicalOrder = some order) {model : CompiledModel}
    (hmodel : model ∈ s.base.models) (hproduces : model.config.materialization ≠ .ephemeral)
    {source : SourceId} (hsource : s.base.DrawsOn model.id source) :
    (s.states.sourceState source).getD "" = "" := by
  have hmem : model ∈ (s.checkedPlanning (forcing { members := [model.id], excluded := [] })
      none true).orderModels :=
    Planning.mem_orderModels hmodel hproduces (List.mem_singleton_self _)
  have hrow := (forcedRow_of_alike hlocal halike _ (worldOf .empty)).1 model hmem
  have hhash := congrArg (fun row => row.2.1) hrow
  have hread : ∀ states, (Compilation.atVersion (s.versionsUnder states) model).version.hash =
      s.base.versionHash s.workspace.lowered states.sourceState model.id := by
    intro states
    unfold Compilation.atVersion versionsUnder Compilation.versionHash
    cases s.base.modelVersions s.workspace.lowered states.sourceState model.id <;> rfl
  change (Compilation.atVersion (s.versionsUnder Table.empty) model).version.hash =
    (Compilation.atVersion (s.versionsUnder s.states) model).version.hash at hhash
  rw [hread, hread] at hhash
  exact (Compilation.hash_eq_blank_iff hsha horder).1 hhash.symm source hsource

/-- Without a difference in any plan, the two compiles agree on whether there are errors. -/
theorem clean_of_alike (hlocal : s.IsLocal) (halike : s.Alike) (hok : s.base.isOk = true) :
    s.reported.clean = s.declared.clean ∨ s.PlansNothing := by
  by_cases hnothing : s.PlansNothing
  · exact .inr hnothing
  · left
    unfold PlansNothing at hnothing
    push Not at hnothing
    obtain ⟨request, hplanned⟩ := hnothing
    obtain ⟨hmodels, hseeds⟩ := forcedRow_of_alike hlocal halike request.selection
      (worldOf .empty)
    have hblocked : ∀ (analysis : Analysis) (states : StaticSourceStateProvider),
        (s.ownPlanning (forcing request.selection) (worldOf .empty) analysis states).blocked =
          !analysis.clean := by
      intro analysis states
      change (!(s.base.isOk && analysis.clean)) = !analysis.clean
      rw [hok, Bool.true_and]
    have haction : (if !s.declared.clean then PlanAction.unknown else .build) =
        if !s.reported.clean then PlanAction.unknown else .build := by
      by_cases hempty : (s.checkedPlanning request none true).orderModels = []
      · obtain ⟨seed, hseed⟩ := List.exists_mem_of_ne_nil _ (hplanned hempty)
        have hseed := hseeds seed hseed
        rwa [hblocked, hblocked] at hseed
      · obtain ⟨model, hmodel⟩ := List.exists_mem_of_ne_nil _ hempty
        have hmodel := congrArg (fun row => row.2.2.1) (hmodels model hmodel)
        simp only [Planning.forcedRow] at hmodel
        rwa [hblocked, hblocked] at hmodel
    cases hdeclared : s.declared.clean <;> cases hreported : s.reported.clean <;>
      simp [hdeclared, hreported] at haction ⊢

/-- Without a difference in any plan, the two analyses agree on what to rebuild. -/
theorem rebuilds_of_alike (hlocal : s.IsLocal) (halike : s.Alike) (hok : s.base.isOk = true)
    (hreported : s.reported.clean = true) (hdeclared : s.declared.clean = true)
    (hmodel : model ∈ s.base.models) (hproduces : model.config.materialization ≠ .ephemeral)
    (hstateful : model.config.materialization = .incremental → s.context.stateful = true) :
    s.verdictsOf s.reported model = s.verdictsOf s.declared model := by
  let selection : Selection := { members := [model.id], excluded := [] }
  let w := worldOf (strategyStore s.environment model)
  have hmem : model ∈ (s.checkedPlanning (forcing selection) none true).orderModels :=
    Planning.mem_orderModels hmodel hproduces (List.mem_singleton_self _)
  have hrow := (forcedRow_of_alike hlocal halike selection w).1 model hmem
  have hflag : ∀ (analysis : Analysis) (states : StaticSourceStateProvider),
      analysis.clean = true →
      ((s.ownPlanning (forcing selection) w analysis states).forcedRow
        (Compilation.atVersion (s.versionsUnder states) model)).2.2.2 =
          s.verdictsOf analysis model := by
    intro analysis states hclean
    have hblocked : (s.ownPlanning (forcing selection) w analysis states).blocked = false := by
      change (!(s.base.isOk && analysis.clean)) = false
      rw [hok, hclean]
      rfl
    have hchanged : (decide (model.config.materialization = .incremental) &&
        (s.ownPlanning (forcing selection) w analysis states).incrementalChanged
          (Compilation.atVersion (s.versionsUnder states) model)) = false := by
      by_cases hincremental : model.config.materialization = .incremental
      · have hstore : (s.ownPlanning (forcing selection) w analysis states).store =
            some (strategyStore s.environment model) := if_pos (hstateful hincremental)
        have hrecord : (s.ownPlanning (forcing selection) w analysis states).materialized
            model.id.logicalName = some (strategyRecord s.environment model) := by
          rw [Planning.materialized, hblocked, if_neg (by simp), hstore, Option.bind_some]
          exact materializedScope_strategyStore s.environment model
        rw [Planning.incrementalChanged, Compilation.atVersion_id, hrecord]
        simp [strategyRecord, CompiledModel.incrementalStrategy, CompiledModel.incrementalKey]
      · simp [hincremental]
    change (!(s.ownPlanning (forcing selection) w analysis states).blocked &&
      (decide (model.config.materialization = .incremental) &&
        (s.ownPlanning (forcing selection) w analysis states).incrementalChanged
          (Compilation.atVersion (s.versionsUnder states) model) ||
        s.verdictsOf analysis model)) = s.verdictsOf analysis model
    rw [hblocked, hchanged]
    simp
  have hflags := congrArg (fun row => row.2.2.2) hrow
  simp only [hflag s.reported s.states hreported, hflag s.declared Table.empty hdeclared] at hflags
  exact hflags.symm

/-- The daemon and the command line plan alike exactly when a candidate is resolved, or the
reports of the adapter change nothing that a plan says. -/
theorem alike_iff (hsha : CollisionFree) : s.Alike ↔ (s.IsLocal → s.Quiet) := by
  constructor
  · intro halike hlocal
    exact
      { states := fun order horder model hmodel hproduces source hsource =>
          states_of_alike hsha hlocal halike horder hmodel hproduces hsource
        clean := clean_of_alike hlocal halike
        rebuilds := fun hok hreported hdeclared model hmodel hproduces hstateful =>
          rebuilds_of_alike hlocal halike hok hreported hdeclared hmodel hproduces hstateful }
  · intro hquiet request planId planId' w
    by_cases hlocal : s.IsLocal
    · rw [daemonPlan_of_isLocal hlocal, cliPlan_of_isLocal hlocal]
      exact content_of_quiet (hquiet hlocal) request w planId planId'
    · exact content_of_not_isLocal hlocal request planId planId' w

end Content

/-! ## A changed source without a candidate -/

/-- Both sources have a snapshot, no environment is named and there is no Nessie. -/
def observed : PlanSession where
  workspace :=
    { resolved := fun _ => Enrichment.clicksAndSales
      lowered := fun _ => { canonicalSql := "", incremental := "None", contract := "" }
      analyse := fun _ =>
        { clean := true, schema := fun _ => { columns := [], known := false }, columns := fun _ => [] }
      catalog := none
      schema := none
      paths := fun _ => none
      workflows := fun _ => none
      seeds := []
      tests := [] }
  warehouse :=
    { name := "trino"
      relationColumns := fun _ => .ok []
      sourceState := fun relation => .ok (some ("snapshot of " ++ relation.table)) }
  context :=
    { nessie := false, adapter := none, stateful := true, nessieUri := none, warehouse := none
      catalog := none }
  environment := none
  baseRef := "main"
  mode := .readOnly

/-- The same session without any snapshot. -/
def unobserved : PlanSession :=
  { observed with warehouse := { observed.warehouse with sourceState := fun _ => .ok none } }

/-- The daemon does not see the snapshots that the command line versions the models with. -/
theorem observed_not_alike : ¬ @Alike observed quotedDigest januaryClock := by
  intro halike
  have horder : observed.base.topologicalOrder =
      some [Enrichment.clicksModel.id, Enrichment.salesModel.id] := by
    decide +kernel
  have hsource : observed.base.DrawsOn Enrichment.clicksModel.id Enrichment.eventsSource :=
    .of_sourceDependencies (List.mem_cons_self ..) (List.mem_cons_self ..)
  have hblank := @states_of_alike observed quotedDigest januaryClock
    collisionFree_quotedDigest (.inl rfl) halike _ horder _ (List.mem_cons_self ..) (by decide)
    _ hsource
  exact absurd hblank (by decide +kernel)

/-- Where no source has a state, the two plan alike. -/
theorem alike_iff_unobserved : @Alike unobserved quotedDigest januaryClock := by
  refine (@alike_iff unobserved quotedDigest januaryClock collisionFree_quotedDigest).2
    fun _ => ?_
  exact
    { states := fun _ _ _ _ _ source _ => by
        have hempty : unobserved.states = Table.empty := Table.eq_of_rows (by decide +kernel)
        rw [hempty]
        rfl
      clean := fun _ => .inl rfl
      rebuilds := fun _ _ _ _ _ _ _ => rfl }

end PlanSession
end PhloTransform.Engine
