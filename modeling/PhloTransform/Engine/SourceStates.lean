import PhloTransform.Core.ModelVersions
import PhloTransform.Engine.Plan

/-!
# Source states

Before a plan, the states of the external sources are observed one after the other and the
workspace is compiled again under them.  A source backed by a seed is not observed: the
content hash of the seed is its state.  An observation that fails ends the loop, and the
recompile then goes on without any state.

Main results:

- Theorem `collectSourceStates_of_fails`: one failed observation loses every state.
- Theorem `actionOf_congr`: a model's planned action depends on its own version alone.
-/

namespace PhloTransform.Engine

open Core (Compilation CompiledModel CompiledSeed LoweredModel ModelId ModelVersion Relation
  Sha256 SourceId StaticSourceStateProvider adapterDefaultSchema relationForSource
  seedForRelation)

/-! ## Observing the sources -/

/-- What the enrichment asks of an adapter. -/
structure SourceAdapter where
  name : String
  sourceState : Relation → Except EngineError (Option String)

section Collect

variable (adapter : SourceAdapter) (seeds : List CompiledSeed)
  (defaultCatalog defaultSchema : Option String)

def seedBehind (source : SourceId) : Option CompiledSeed :=
  seedForRelation seeds (relationForSource source defaultCatalog defaultSchema)
    defaultCatalog defaultSchema adapter.name

def observeSource (provider : StaticSourceStateProvider) (source : SourceId) :
    Except EngineError StaticSourceStateProvider :=
  match seedBehind adapter seeds defaultCatalog defaultSchema source with
  | some seed => .ok (provider.put (source.logicalName, "csv:" ++ seed.contentHash))
  | none =>
    match adapter.sourceState (relationForSource source defaultCatalog defaultSchema) with
    | .ok (some state) => .ok (provider.put (source.logicalName, state))
    | .ok none => .ok provider
    | .error error => .error error

/-- `collect_source_states`: the first failed observation is the result. -/
def collectSourceStates (sources : List SourceId) :
    Except EngineError StaticSourceStateProvider :=
  sources.foldlM (observeSource adapter seeds defaultCatalog defaultSchema) Library.Table.empty

end Collect

/-- The states that the recompile goes by: none at all after an error. -/
def observedStates (adapter : SourceAdapter) (defaultCatalog defaultSchema : Option String)
    (base : Compilation) : StaticSourceStateProvider :=
  let defaultSchema := defaultSchema.or (adapterDefaultSchema adapter.name)
  match collectSourceStates adapter base.seeds defaultCatalog defaultSchema base.sources with
  | .ok provider => provider
  | .error _ => Library.Table.empty

/-- `enrich_sources`, as far as versions go. -/
def enrichSources [Sha256] (lowered : ModelId → LoweredModel) (adapter : SourceAdapter)
    (defaultCatalog defaultSchema : Option String) (base : Compilation) : Compilation :=
  base.compileWithOptions lowered (observedStates adapter defaultCatalog defaultSchema base)

/-- An adapter whose calls on some relations fail and that answers all others. -/
def SourceAdapter.answering (name : String) (observe : Relation → Option String)
    (failing : Relation → Bool) : SourceAdapter where
  name := name
  sourceState relation := if failing relation then .error .adapter else .ok (observe relation)

/-! ## One failing call -/

section Answering

variable (name : String) (observe : Relation → Option String) (failing : Relation → Bool)
  (seeds : List CompiledSeed) (defaultCatalog defaultSchema : Option String)
variable {source : SourceId}
variable {sources : List SourceId}

/-- The source is observed and the observation fails. -/
def Fails (source : SourceId) : Prop :=
  seedForRelation seeds (relationForSource source defaultCatalog defaultSchema)
      defaultCatalog defaultSchema name = none ∧
    failing (relationForSource source defaultCatalog defaultSchema) = true

/-- The source has no state: it is observed, and the answer is that there is none. -/
def Stateless (source : SourceId) : Prop :=
  seedForRelation seeds (relationForSource source defaultCatalog defaultSchema)
      defaultCatalog defaultSchema name = none ∧
    observe (relationForSource source defaultCatalog defaultSchema) = none

/-- What a calm round records: nothing for a source without a state. -/
theorem observeSource_calm (provider : StaticSourceStateProvider) (source : SourceId) :
    ∃ next, observeSource (.answering name observe fun _ => false) seeds defaultCatalog
        defaultSchema provider source = .ok next ∧
      ∀ asked, next.sourceState asked = none ↔
        provider.sourceState asked = none ∧
          (source.logicalName = asked.logicalName →
            Stateless name observe seeds defaultCatalog defaultSchema source) := by
  have hput : ∀ (state : String) (asked : SourceId),
      StaticSourceStateProvider.sourceState
          (Library.Table.put provider (source.logicalName, state)) asked = none ↔
        provider.sourceState asked = none ∧ source.logicalName ≠ asked.logicalName := by
    intro state asked
    by_cases hname : source.logicalName = asked.logicalName <;>
      simp [StaticSourceStateProvider.sourceState, Library.Table.get?_put, hname]
  simp only [observeSource, seedBehind, SourceAdapter.answering, Stateless]
  cases hseed : seedForRelation seeds (relationForSource source defaultCatalog defaultSchema)
      defaultCatalog defaultSchema name with
  | some seed => exact ⟨_, rfl, fun asked => by simp [hput]⟩
  | none =>
    cases hstate : observe (relationForSource source defaultCatalog defaultSchema) with
    | some state => exact ⟨_, rfl, fun asked => by simp [hput]⟩
    | none => exact ⟨provider, rfl, fun asked => by simp⟩

/-- A calm loop succeeds; a source then has no state exactly when no source of its name has
one. -/
theorem foldlM_observeSource_calm (sources : List SourceId)
    (provider : StaticSourceStateProvider) :
    ∃ last, sources.foldlM (observeSource (.answering name observe fun _ => false) seeds
        defaultCatalog defaultSchema) provider = .ok last ∧
      ∀ asked, last.sourceState asked = none ↔
        provider.sourceState asked = none ∧
          ∀ source ∈ sources, source.logicalName = asked.logicalName →
            Stateless name observe seeds defaultCatalog defaultSchema source := by
  induction sources generalizing provider with
  | nil => exact ⟨provider, rfl, by simp⟩
  | cons source sources ih =>
    obtain ⟨next, hnext, hnextstate⟩ := observeSource_calm name observe seeds
      defaultCatalog defaultSchema provider source
    obtain ⟨last, hlast, hlaststate⟩ := ih next
    refine ⟨last, ?_, fun asked => ?_⟩
    · rw [List.foldlM_cons, hnext]
      exact hlast
    · rw [hlaststate, hnextstate, List.forall_mem_cons, and_assoc]

variable {name observe failing seeds defaultCatalog defaultSchema}

theorem observeSource_of_fails (h : Fails name failing seeds defaultCatalog defaultSchema source)
    (provider : StaticSourceStateProvider) :
    observeSource (.answering name observe failing) seeds defaultCatalog defaultSchema
      provider source = .error .adapter := by
  obtain ⟨hseed, hfailing⟩ := h
  simp [observeSource, seedBehind, SourceAdapter.answering, hseed, hfailing]

/-- A round whose call does not fail is the round that no failure disturbs. -/
theorem observeSource_of_not_fails
    (h : ¬ Fails name failing seeds defaultCatalog defaultSchema source)
    (provider : StaticSourceStateProvider) :
    observeSource (.answering name observe failing) seeds defaultCatalog defaultSchema
        provider source =
      observeSource (.answering name observe fun _ => false) seeds defaultCatalog
        defaultSchema provider source := by
  simp only [observeSource, seedBehind, SourceAdapter.answering]
  cases hseed : seedForRelation seeds (relationForSource source defaultCatalog defaultSchema)
      defaultCatalog defaultSchema name with
  | some seed => rfl
  | none =>
    have hfailing : failing (relationForSource source defaultCatalog defaultSchema) = false := by
      simpa [Fails, hseed] using h
    simp [hfailing]

theorem foldlM_observeSource_of_not_fails
    (h : ∀ source ∈ sources, ¬ Fails name failing seeds defaultCatalog defaultSchema source)
    (provider : StaticSourceStateProvider) :
    sources.foldlM (observeSource (.answering name observe failing) seeds defaultCatalog
        defaultSchema) provider =
      sources.foldlM (observeSource (.answering name observe fun _ => false) seeds
        defaultCatalog defaultSchema) provider := by
  induction sources generalizing provider with
  | nil => rfl
  | cons source sources ih =>
    rw [List.forall_mem_cons] at h
    rw [List.foldlM_cons, List.foldlM_cons, observeSource_of_not_fails h.1]
    congr 1
    funext next
    exact ih h.2 next

theorem collectSourceStates_of_fails (hmem : source ∈ sources)
    (h : Fails name failing seeds defaultCatalog defaultSchema source) :
    collectSourceStates (.answering name observe failing) seeds defaultCatalog defaultSchema
      sources = .error .adapter := by
  unfold collectSourceStates
  generalize (Library.Table.empty : StaticSourceStateProvider) = provider
  induction sources generalizing provider with
  | nil => cases hmem
  | cons first sources ih =>
    rw [List.foldlM_cons]
    by_cases hfirst : Fails name failing seeds defaultCatalog defaultSchema first
    · rw [observeSource_of_fails hfirst]
      rfl
    · obtain ⟨next, hnext, -⟩ := observeSource_calm name observe seeds
        defaultCatalog defaultSchema provider first
      rw [observeSource_of_not_fails hfirst, hnext]
      have hlater : source ∈ sources :=
        (List.mem_cons.1 hmem).resolve_left fun heq => hfirst (heq ▸ h)
      exact ih hlater next

end Answering

/-! ## Planned actions under other versions -/

def Plan.actionOf (plan : Plan) (id : ModelId) : Option PlanAction :=
  (plan.models.find? fun planned => decide (planned.id = id)).map PlannedModel.action

namespace Planning

/-- The same planning over another workspace. -/
def onCompilation (p : Planning) (compilation : Compilation) : Planning :=
  { p with compilation }

/-- The same planning over a recompiled workspace. -/
def atVersions (p : Planning) (versions : ModelId → Option ModelVersion) : Planning :=
  p.onCompilation (p.compilation.withVersions versions)

section AtVersions

variable (p : Planning) (versions : ModelId → Option ModelVersion)

theorem closeOver_withVersions (base : Compilation) (excluded : List ModelId) (fuel : Nat)
    (included frontier : List ModelId) :
    closeOver (base.withVersions versions) excluded fuel included frontier =
      closeOver base excluded fuel included frontier := by
  induction fuel generalizing included frontier with
  | zero => rfl
  | succ fuel ih =>
    cases frontier with
    | nil => rfl
    | cons id frontier => simp only [closeOver, Compilation.modelDependencies_withVersions, ih]

@[simp]
theorem view_atVersions : (p.atVersions versions).view = p.view :=
  rfl

@[simp]
theorem plannedIds_atVersions : (p.atVersions versions).plannedIds = p.plannedIds := by
  have hfuel : (p.compilation.withVersions versions).models.flatMap
      CompiledModel.modelDependencies =
        p.compilation.models.flatMap CompiledModel.modelDependencies := by
    simp [Compilation.withVersions, List.flatMap_map]
  simp only [plannedIds, atVersions, onCompilation, dependencyClosureExcluding, hfuel,
    closeOver_withVersions]

@[simp]
theorem order_atVersions : (p.atVersions versions).order = p.order := by
  have hplannable : (p.atVersions versions).isPlannable = p.isPlannable := by
    funext id
    rw [isPlannable, isPlannable, atVersions, onCompilation, Compilation.model_withVersions]
    cases p.compilation.model id <;> rfl
  rw [order, order, hplannable, plannedIds_atVersions]
  simp [atVersions, onCompilation]

theorem orderModels_atVersions :
    (p.atVersions versions).orderModels = p.orderModels.map (Compilation.atVersion versions) := by
  rw [orderModels, orderModels, order_atVersions, List.map_filterMap]
  exact List.filterMap_congr fun id _ => Compilation.model_withVersions _ _ id

@[simp]
theorem neededSeeds_atVersions : (p.atVersions versions).neededSeeds = p.neededSeeds := by
  have hsources : (p.atVersions versions).seedSources = p.seedSources := by
    rw [seedSources, seedSources, plannedIds_atVersions]
    rw [show (p.atVersions versions).compilation.sourceDependencies =
      p.compilation.sourceDependencies from
        Compilation.sourceDependencies_withVersions p.compilation versions]
    rfl
  rw [neededSeeds, neededSeeds, hsources]
  rfl

theorem excludedReads_atVersions :
    (p.atVersions versions).excludedReads =
      p.excludedReads.map fun read => (read.1, Compilation.atVersion versions read.2) := by
  rw [excludedReads, excludedReads, plannedIds_atVersions, List.map_flatMap]
  congr 1
  funext id
  rw [show (p.atVersions versions).compilation.modelDependencies =
    p.compilation.modelDependencies from
      Compilation.modelDependencies_withVersions p.compilation versions, List.map_filterMap]
  congr 1
  funext dependency
  by_cases hexcluded : dependency ∈ p.selection.excluded
  · simp only [atVersions, onCompilation, hexcluded, if_true, Compilation.model_withVersions]
    cases p.compilation.model dependency with
    | none => rfl
    | some model =>
      by_cases hephemeral : model.config.materialization = .ephemeral <;> simp [hephemeral]
  · simp [atVersions, onCompilation, hexcluded]

@[simp]
theorem probeRelations_atVersions : (p.atVersions versions).probeRelations = p.probeRelations := by
  rw [probeRelations, probeRelations, excludedReads_atVersions, orderModels_atVersions,
    neededSeeds_atVersions, List.map_map, List.map_map]
  rfl

theorem existsAt_atVersions : (p.atVersions versions).existsAt = p.existsAt := by
  funext exist display
  rw [existsAt, existsAt, probeRelations_atVersions]

theorem missingExcluded_atVersions (exist : Relation → Bool) :
    (p.atVersions versions).missingExcluded exist =
      (p.missingExcluded exist).map fun read =>
        (read.1, Compilation.atVersion versions read.2) := by
  rw [missingExcluded, missingExcluded, excludedReads_atVersions, existsAt_atVersions]
  have hblocked : (p.atVersions versions).blocked = p.blocked := rfl
  rw [hblocked]
  cases p.blocked with
  | true => rfl
  | false => exact List.find?_map

end AtVersions

section Decisions

variable [Rfc3339] (p : Planning) (exist : Relation → Bool) (model : CompiledModel)

/-- The records of the model's own version. -/
def ownRecords : List MaterializedRecord :=
  match p.store with
  | some store => store.materializedByHash model.version.hash
  | none => []

/-- What a decision about the model rests on, read for this model alone. -/
def ownEvidence : ModelEvidence where
  targetExists := p.existsAt exist model.target.display
  current := p.materialized model.id.logicalName
  elsewhere := p.ownRecords model
  liveOutput :=
    if (match p.materialized model.id.logicalName with
      | some record => record.outputIdentity.isSome
      | none => (p.ownRecords model).any (isCandidate p.view.name p.environment model.target))
    then p.view.outputIdentity model.target
    else none

variable {p exist model}

/-- The records of a version that is looked up for the model are its own. -/
theorem byHash_self (hmodel : model ∈ p.orderModels)
    (hcurrent : p.materialized model.id.logicalName = none)
    (hexists : p.existsAt exist model.target.display = true) :
    p.byHash exist model.version.hash = p.ownRecords model := by
  have hlooked : model.version.hash ∈ p.cacheHashes exist :=
    List.mem_map_of_mem (List.mem_filter.2 ⟨hmodel, by simp [hcurrent, hexists]⟩)
  rw [byHash, ownRecords]
  cases p.store with
  | none => rfl
  | some store => simp [hlooked]

theorem decideModel_eq (hok : p.compilation.isOk = true) (hmodel : model ∈ p.orderModels) :
    p.decideModel exist model =
      Planner.decide p.view.name p.store.isSome p.force p.environment model
        (p.ownEvidence exist model) := by
  have hlive := p.liveOutput_eq hok exist hmodel
  have hblocked : p.blocked = false := by simp [blocked, hok]
  rw [decideModel, if_neg (by simp [hblocked])]
  cases hexists : p.existsAt exist model.target.display with
  | false => simp [Planner.decide, evidence, ownEvidence, hexists]
  | true =>
    cases hcurrent : p.materialized model.id.logicalName with
    | some record =>
      simp only [wantsOutput, hcurrent] at hlive
      simp [Planner.decide, evidence, ownEvidence, hexists, hcurrent, hlive]
    | none =>
      have hrecords := byHash_self hmodel hcurrent hexists
      simp only [wantsOutput, hcurrent, hexists, hrecords, Bool.true_and] at hlive
      rw [evidence, ownEvidence, hrecords, hlive]
      simp [hcurrent]

/-- A model's planned action depends on its own version alone. -/
theorem decideModel_congr {versions versions' : ModelId → Option ModelVersion}
    (hmodel : model ∈ p.orderModels)
    (hhash : (Compilation.atVersion versions model).version.hash =
      (Compilation.atVersion versions' model).version.hash) :
    ((p.atVersions versions).decideModel exist (Compilation.atVersion versions model)).action =
      ((p.atVersions versions').decideModel exist
        (Compilation.atVersion versions' model)).action := by
  have hmem : ∀ versions : ModelId → Option ModelVersion,
      Compilation.atVersion versions model ∈ (p.atVersions versions).orderModels := fun _ => by
    rw [orderModels_atVersions]
    exact List.mem_map_of_mem hmodel
  cases hok : p.compilation.isOk with
  | false =>
    have hblocked : ∀ versions, (p.atVersions versions).blocked = true := fun _ => by
      change (!p.compilation.isOk) = true
      simp [hok]
    simp [decideModel, hblocked]
  | true =>
    rw [decideModel_eq (p := p.atVersions versions) hok (hmem versions),
      decideModel_eq (p := p.atVersions versions') hok (hmem versions')]
    have hevidence :
        (p.atVersions versions).ownEvidence exist (Compilation.atVersion versions model) =
          (p.atVersions versions').ownEvidence exist
            (Compilation.atVersion versions' model) := by
      simp only [ownEvidence, ownRecords, existsAt_atVersions, hhash]
      rfl
    rw [hevidence]
    simp only [Planner.decide, hhash]
    rfl

theorem actionOf_models {plan : Plan} (h : plan.models = p.orderModels.map (p.plannedModel exist))
    (id : ModelId) :
    plan.actionOf id =
      (p.orderModels.find? fun model => decide (model.id = id)).map fun model =>
        (p.decideModel exist model).action := by
  rw [Plan.actionOf, h, List.find?_map, Option.map_map]
  rfl

/-- Whether the plan is made does not depend on the versions, nor does the error. -/
theorem plan_atVersions_error {planId : String} {versions versions' : ModelId → Option ModelVersion}
    {error : EngineError} (h : (p.atVersions versions).plan planId = .error error) :
    (p.atVersions versions').plan planId = .error error := by
  unfold Planning.plan at h ⊢
  rw [view_atVersions] at h ⊢
  cases hexist : p.view.relationsExist with
  | none => simpa [hexist] using h
  | some exist =>
    simp only [hexist, missingExcluded_atVersions] at h ⊢
    cases hmissing : p.missingExcluded exist with
    | some read => simpa [hmissing] using h
    | none => simp [hmissing] at h

/-- Plans over two recompiles give the same action to a model with one version hash in
both. -/
theorem actionOf_congr {versions versions' : ModelId → Option ModelVersion} {id : ModelId}
    (hhash : ((versions id).getD default).hash = ((versions' id).getD default).hash)
    (planId : String) :
    ((p.atVersions versions).plan planId).map (fun plan => plan.actionOf id) =
      ((p.atVersions versions').plan planId).map fun plan => plan.actionOf id := by
  cases hplan : (p.atVersions versions).plan planId with
  | error error => rw [plan_atVersions_error hplan]
  | ok plan =>
    cases hplan' : (p.atVersions versions').plan planId with
    | error error =>
      rw [plan_atVersions_error hplan'] at hplan
      cases hplan
    | ok plan' =>
      obtain ⟨exist, hexist, -, -, -, hmodels, -⟩ := plan_eq_ok hplan
      obtain ⟨exist', hexist', -, -, -, hmodels', -⟩ := plan_eq_ok hplan'
      rw [view_atVersions] at hexist hexist'
      obtain rfl : exist = exist' := Option.some.inj (hexist.symm.trans hexist')
      have hactions : plan.actionOf id = plan'.actionOf id := by
        rw [actionOf_models hmodels, actionOf_models hmodels', orderModels_atVersions,
          orderModels_atVersions, List.find?_map, List.find?_map, Option.map_map,
          Option.map_map]
        have hids : ∀ versions : ModelId → Option ModelVersion,
            ((fun model : CompiledModel => decide (model.id = id)) ∘
              Compilation.atVersion versions) = fun model => decide (model.id = id) :=
          fun _ => rfl
        rw [hids, hids]
        cases hfind : p.orderModels.find? fun model => decide (model.id = id) with
        | none => rw [Option.map_none, Option.map_none]
        | some model =>
          have hmodel := List.mem_of_find?_eq_some hfind
          have hid : model.id = id := by simpa using List.find?_some hfind
          subst hid
          rw [Option.map_some, Option.map_some, Function.comp_apply, Function.comp_apply,
            decideModel_congr hmodel hhash]
      simp only [Except.map, hactions]

end Decisions

end Planning

/-! ## What a failed observation disturbs -/

/-- A workspace to be enriched: its texts, its sources' states and the defaults. -/
structure Enrichment where
  base : Compilation
  lowered : ModelId → LoweredModel
  adapterName : String
  observe : Relation → Option String
  defaultCatalog : Option String
  defaultSchema : Option String

namespace Enrichment

variable (e : Enrichment) (failing : Relation → Bool)

def sourceSchema : Option String :=
  e.defaultSchema.or (adapterDefaultSchema e.adapterName)

/-- The adapter, when calls on the failing relations fail. -/
def adapter : SourceAdapter :=
  .answering e.adapterName e.observe failing

/-- The states that the recompile goes by. -/
def states : StaticSourceStateProvider :=
  observedStates (e.adapter failing) e.defaultCatalog e.defaultSchema e.base

def compiled [Sha256] : Compilation :=
  enrichSources e.lowered (e.adapter failing) e.defaultCatalog e.defaultSchema e.base

/-- The observation of the source fails. -/
def Fails (source : SourceId) : Prop :=
  Engine.Fails e.adapterName failing e.base.seeds e.defaultCatalog e.sourceSchema source

/-- Neither a seed nor the adapter has a state for the source. -/
def Stateless (source : SourceId) : Prop :=
  Engine.Stateless e.adapterName e.observe e.base.seeds e.defaultCatalog e.sourceSchema source

def calm : Relation → Bool :=
  fun _ => false

/-- The failing calls disturb only what reads a failing source: every other source has the
state, every model over other sources has the version and every plan has for it the action
that no failure would have left. -/
structure Undisturbed [Sha256] [Rfc3339] : Prop where
  states : ∀ source ∈ e.base.sources, ¬ e.Fails failing source →
    (e.states failing).sourceState source = (e.states calm).sourceState source
  versions : ∀ id, (∀ source, e.base.DrawsOn id source → ¬ e.Fails failing source) →
    ((e.compiled failing).model id).map (fun model => model.version.hash) =
      ((e.compiled calm).model id).map fun model => model.version.hash
  plans : ∀ id, (∀ source, e.base.DrawsOn id source → ¬ e.Fails failing source) →
    ∀ (p : Planning) (planId : String),
      ((p.onCompilation (e.compiled failing)).plan planId).map (fun plan => plan.actionOf id) =
        ((p.onCompilation (e.compiled calm)).plan planId).map fun plan => plan.actionOf id

variable {e failing}

theorem states_of_not_fails (h : ∀ source ∈ e.base.sources, ¬ e.Fails failing source) :
    e.states failing = e.states calm := by
  have hcollect : collectSourceStates (e.adapter failing) e.base.seeds e.defaultCatalog
        e.sourceSchema e.base.sources =
      collectSourceStates (e.adapter calm) e.base.seeds e.defaultCatalog e.sourceSchema
        e.base.sources :=
    foldlM_observeSource_of_not_fails h _
  change (match collectSourceStates (e.adapter failing) e.base.seeds e.defaultCatalog
      e.sourceSchema e.base.sources with
    | .ok provider => provider
    | .error _ => Library.Table.empty) = _
  rw [hcollect]
  rfl

theorem states_of_fails {source : SourceId} (hmem : source ∈ e.base.sources)
    (h : e.Fails failing source) : e.states failing = Library.Table.empty := by
  have hcollect : collectSourceStates (e.adapter failing) e.base.seeds e.defaultCatalog
      e.sourceSchema e.base.sources = .error .adapter :=
    collectSourceStates_of_fails hmem h
  change (match collectSourceStates (e.adapter failing) e.base.seeds e.defaultCatalog
      e.sourceSchema e.base.sources with
    | .ok provider => provider
    | .error _ => Library.Table.empty) = _
  rw [hcollect]

/-- Without failures a source has no state when no source of its name has one. -/
theorem states_calm_eq_none {source : SourceId} :
    (e.states calm).sourceState source = none ↔
      ∀ other ∈ e.base.sources, other.logicalName = source.logicalName → e.Stateless other := by
  obtain ⟨last, hlast, hstate⟩ := foldlM_observeSource_calm e.adapterName e.observe
    e.base.seeds e.defaultCatalog e.sourceSchema e.base.sources Library.Table.empty
  have hstates : e.states calm = last := by
    change (match collectSourceStates (e.adapter calm) e.base.seeds e.defaultCatalog
        e.sourceSchema e.base.sources with
      | .ok provider => provider
      | .error _ => Library.Table.empty) = _
    rw [show collectSourceStates (e.adapter calm) e.base.seeds e.defaultCatalog e.sourceSchema
      e.base.sources = .ok last from hlast]
  rw [hstates, hstate source]
  simp [StaticSourceStateProvider.sourceState, Stateless]

section Versions

variable [Sha256]

/-- Undisturbed states leave the versions over them undisturbed. -/
theorem modelVersions_of_states
    (h : ∀ source ∈ e.base.sources, ¬ e.Fails failing source →
      (e.states failing).sourceState source = (e.states calm).sourceState source)
    {id : ModelId} (hreads : ∀ source, e.base.DrawsOn id source → ¬ e.Fails failing source) :
    e.base.modelVersions e.lowered (e.states failing).sourceState id =
      e.base.modelVersions e.lowered (e.states calm).sourceState id := by
  refine Compilation.modelVersions_congr
    (fun source => source ∈ e.base.sources ∧ ¬ e.Fails failing source) ?_ id ?_
  · rintro source ⟨hmem, hfails⟩
    exact h source hmem hfails
  · intro source hsource
    exact ⟨Compilation.mem_sources_of_drawsOn hsource, hreads source hsource⟩

variable [Rfc3339]

theorem undisturbed_of_states
    (h : ∀ source ∈ e.base.sources, ¬ e.Fails failing source →
      (e.states failing).sourceState source = (e.states calm).sourceState source) :
    e.Undisturbed failing where
  states := h
  versions id hreads := by
    have hfound : ∀ failing : Relation → Bool, (e.compiled failing).model id =
        (e.base.model id).map
          (Compilation.atVersion (e.base.modelVersions e.lowered (e.states failing).sourceState)) :=
      fun _ => Compilation.model_withVersions _ _ id
    rw [hfound, hfound]
    cases hmodel : e.base.model id with
    | none => simp only [Option.map_none]
    | some model =>
      obtain rfl := Compilation.id_of_model hmodel
      simp only [Option.map_some, Compilation.atVersion, modelVersions_of_states h hreads]
  plans id hreads p planId := by
    have hhash : ((e.base.modelVersions e.lowered (e.states failing).sourceState id).getD
          default).hash =
        ((e.base.modelVersions e.lowered (e.states calm).sourceState id).getD default).hash := by
      rw [modelVersions_of_states h hreads]
    exact Planning.actionOf_congr (p := p.onCompilation e.base) hhash planId

/-- Failed observations leave the rest undisturbed exactly when no observation fails, or
when the sources whose observation does not fail have no state to lose. -/
theorem undisturbed_iff :
    e.Undisturbed failing ↔
      (∀ source ∈ e.base.sources, ¬ e.Fails failing source) ∨
        ∀ source ∈ e.base.sources, ¬ e.Fails failing source →
          ∀ other ∈ e.base.sources, other.logicalName = source.logicalName → e.Stateless other := by
  by_cases hnone : ∀ source ∈ e.base.sources, ¬ e.Fails failing source
  · have hundisturbed : e.Undisturbed failing :=
      undisturbed_of_states fun _ _ _ => by rw [states_of_not_fails hnone]
    exact iff_of_true hundisturbed (.inl hnone)
  · have hempty : e.states failing = Library.Table.empty := by
      push Not at hnone
      obtain ⟨source, hmem, hfails⟩ := hnone
      exact states_of_fails hmem hfails
    have hlost : (∀ source ∈ e.base.sources, ¬ e.Fails failing source →
          (e.states failing).sourceState source = (e.states calm).sourceState source) ↔
        ∀ source ∈ e.base.sources, ¬ e.Fails failing source →
          ∀ other ∈ e.base.sources, other.logicalName = source.logicalName →
            e.Stateless other := by
      simp only [hempty, ← states_calm_eq_none]
      exact forall₃_congr fun source _ _ => eq_comm
    rw [or_iff_right hnone, ← hlost]
    exact ⟨Undisturbed.states, undisturbed_of_states⟩

end Versions

/-! ## Two unrelated models -/

/-- A digest that keeps its text. -/
@[reducible]
def textDigest : Sha256 where
  hex text := text

def eventsSource : SourceId where
  parts := ["events"]
  parts_ne_nil := by simp

def ordersSource : SourceId where
  parts := ["orders"]
  parts_ne_nil := by simp

def clicksModel : CompiledModel :=
  Core.Sample.model "clicks" (by decide) .table none [.source eventsSource] (by decide)

def salesModel : CompiledModel :=
  Core.Sample.model "sales" (by decide) .table none [.source ordersSource] (by decide)

def clicksAndSales : Compilation where
  models := [clicksModel, salesModel]
  models_nodup := by decide
  tests := []
  seeds := []
  seeds_nodup := List.nodup_nil
  defaults := { catalog := none, schema := none }
  isOk := true
  targets_nodup := by decide
  acyclic := fun _ => Core.not_cyclic_of_rank (fun _ => 0) (by decide)
  target_catalog := by decide
  target_table := by decide

def snapshots : Enrichment where
  base := clicksAndSales
  lowered _ := { canonicalSql := "", incremental := "None", contract := "" }
  adapterName := "trino"
  observe relation := some ("snapshot of " ++ relation.table)
  defaultCatalog := none
  defaultSchema := none

def eventsFail (relation : Relation) : Bool :=
  relation.table == "events"

/-- When the events do not respond, the state of the orders is lost. -/
theorem orders_lost_with_events : ¬ @Undisturbed snapshots eventsFail textDigest januaryClock := by
  intro hundisturbed
  have horders : ¬ snapshots.Fails eventsFail ordersSource := fun hfails =>
    absurd hfails.2 (by decide)
  have hevents : snapshots.Fails eventsFail eventsSource := ⟨by decide, by decide⟩
  have hlost : (snapshots.states eventsFail).sourceState ordersSource = none := by
    rw [states_of_fails (by decide) hevents]
    rfl
  have hkept : (snapshots.states calm).sourceState ordersSource ≠ none := by decide
  exact hkept ((@Undisturbed.states _ _ textDigest januaryClock hundisturbed ordersSource
    (by decide) horders).symm.trans hlost)

end Enrichment

end PhloTransform.Engine
