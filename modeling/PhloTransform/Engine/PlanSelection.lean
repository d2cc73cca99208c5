import PhloTransform.Core.ExcludeExpansion
import PhloTransform.Engine.Runner

/-!
# Planning a resolved selection

The planner closes the selected models over their dependencies, with a work list that
stops at excluded models, orders what it considers by the order of the workspace, and
leaves ephemeral models out.  The plan reports every planned model as matched, pulled in
by an expansion, or required.

Main results:

- Theorem `mem_dependencyClosureExcluding`: what is considered is what the selection
  reaches without an excluded model on the way.
- Theorem `Planning.isLeastPlan_of_plan`: a plan for a resolved selection is the least
  dependency-closed one, in dependency order.
-/

namespace PhloTransform.Engine

open Core (Compilation CompiledModel DependsOn ModelId SelectorSet TransformGraph)

variable {compilation : Compilation}
variable {a b : ModelId}

/-! ## What is considered -/

/-- The direct dependencies that are not excluded. -/
def keptDependencies (compilation : Compilation) (excluded : List ModelId) (id : ModelId) :
    List ModelId :=
  (compilation.modelDependencies id).filter fun dependency => decide (dependency ∉ excluded)

/-- The closure is a work-list closure over the dependencies that are not excluded. -/
theorem closeOver_eq_closeFrom (compilation : Compilation) (excluded : List ModelId)
    (fuel : Nat) (included frontier : List ModelId) :
    closeOver compilation excluded fuel included frontier =
      Library.closeFrom (keptDependencies compilation excluded) fuel included frontier := by
  induction fuel generalizing included frontier with
  | zero => rfl
  | succ fuel ih =>
    cases frontier with
    | nil => rfl
    | cons id frontier =>
      have hnew : (compilation.modelDependencies id).filter (fun dependency =>
            decide (dependency ∉ excluded) && decide (dependency ∉ included)) =
          (keptDependencies compilation excluded id).filter fun dependency =>
            decide (dependency ∉ included) := by
        rw [keptDependencies, List.filter_filter]
        apply List.filter_congr
        intro dependency _
        rw [Bool.and_comm]
      rw [closeOver, Library.closeFrom, hnew]
      exact ih _ _

theorem keptDependencies_nodup (compilation : Compilation) (excluded : List ModelId)
    (id : ModelId) : (keptDependencies compilation excluded id).Nodup :=
  (compilation.modelDependencies_nodup id).filter _

theorem mem_keptDependencies {excluded : List ModelId} :
    b ∈ keptDependencies compilation excluded a ↔
      DependsOn compilation.models a b ∧ b ∉ excluded := by
  rw [keptDependencies, List.mem_filter, decide_eq_true_eq, Compilation.mem_modelDependencies_iff]

/-- The closure is the least set around the selection that is closed under dependencies
that are not excluded. -/
theorem dependencyClosureExcluding_least (compilation : Compilation)
    (selected excluded : List ModelId) :
    (∀ id ∈ selected, id ∈ dependencyClosureExcluding compilation selected excluded) ∧
      Library.ClosedUnder (keptDependencies compilation excluded)
        (fun id => id ∈ dependencyClosureExcluding compilation selected excluded) ∧
      ∀ S : ModelId → Prop, (∀ id ∈ selected, S id) →
        Library.ClosedUnder (keptDependencies compilation excluded) S →
          ∀ id ∈ dependencyClosureExcluding compilation selected excluded, S id := by
  let reads := compilation.models.flatMap CompiledModel.modelDependencies
  have hwithin : ∀ a, ∀ b ∈ keptDependencies compilation excluded a,
      b ∈ selected.dedup ++ reads := by
    intro a b hb
    obtain ⟨model, hmodel, -, hread⟩ := (mem_keptDependencies.1 hb).1
    exact List.mem_append_right _ (List.mem_flatMap.2 ⟨model, hmodel, hread⟩)
  have hfuel : (selected.dedup ++ reads).length ≤ selected.length + reads.length := by
    have hdedup : selected.dedup.length ≤ selected.length := selected.dedup_sublist.length_le
    rw [List.length_append]
    omega
  have hmem : ∀ id, id ∈ dependencyClosureExcluding compilation selected excluded ↔
      id ∈ Library.closeFrom (keptDependencies compilation excluded)
        (selected.length + reads.length) selected.dedup selected.dedup.reverse := by
    intro id
    rw [dependencyClosureExcluding, List.mem_insertionSort, closeOver_eq_closeFrom]
  have hleast := Library.closeFrom_least (List.nodup_dedup selected)
    (keptDependencies_nodup compilation excluded) hwithin
    (fun _ ha => List.mem_append_left _ ha) hfuel
  simp only [hmem]
  simpa only [List.mem_dedup] using hleast

theorem notMem_dependencyClosureExcluding {selected excluded : List ModelId}
    (hselected : ∀ id ∈ selected, id ∉ excluded) :
    ∀ id ∈ dependencyClosureExcluding compilation selected excluded, id ∉ excluded := by
  apply (dependencyClosureExcluding_least compilation selected excluded).2.2
    (fun id => id ∉ excluded) hselected
  intro a _ b hb
  exact (mem_keptDependencies.1 hb).2

/-! ## The order -/

theorem graph_closed (hlisted : TransformGraph.DependenciesListed compilation.models) :
    compilation.graph.Closed := by
  intro a _ d hd
  obtain ⟨model, hmodel, -, hread⟩ := Compilation.mem_modelDependencies_iff.1 hd
  obtain ⟨other, hother, rfl⟩ := hlisted model hmodel d hread
  exact List.mem_map_of_mem hother

theorem graph_edge_iff (hlisted : TransformGraph.DependenciesListed compilation.models) :
    compilation.graph.Edge a b ↔ DependsOn compilation.models a b := by
  constructor
  · exact fun hedge => Compilation.mem_modelDependencies_iff.1 hedge.2.2
  · intro hreads
    have hmem := Compilation.mem_modelDependencies_iff.2 hreads
    obtain ⟨model, hmodel, rfl, -⟩ := hreads
    have hnode : model.id ∈ compilation.graph.nodes := List.mem_map_of_mem hmodel
    exact ⟨hnode, graph_closed hlisted _ hnode b hmem, hmem⟩

theorem exists_topologicalOrder (hlisted : TransformGraph.DependenciesListed compilation.models)
    (hacyclic : ∀ id, ¬ Relation.TransGen (DependsOn compilation.models) id id) :
    ∃ order, compilation.topologicalOrder = some order := by
  have hgraph : compilation.graph.Acyclic := by
    intro id hcycle
    exact hacyclic id (Relation.TransGen.mono (fun _ _ => (graph_edge_iff hlisted).1) _ _ hcycle)
  exact Option.isSome_iff_exists.1
    ((Library.DependencyGraph.topologicalOrder_isSome_iff (graph_closed hlisted)).2 hgraph)

/-! ## The report on the selection -/

/-- How the planned models came into the plan. -/
structure PlanSelection where
  terms : List String
  exclude : List String
  matched : List String
  expanded : List String
  required : List String
deriving Repr, DecidableEq

/-- What the planner's closure reads of a resolved selection. -/
def Selection.ofResolved (selection : Core.Selection) : Selection where
  members := selection.ids
  excluded := selection.excludedIds

namespace Planning

variable (p : Planning)
variable {id : ModelId}
variable {test : ModelId → Bool} {order : List ModelId}

/-- The planned models whose membership satisfies a test. -/
def reported (test : ModelId → Bool) : List String :=
  (p.order.filter test).map ModelId.logicalName

def planSelection (selection : Core.Selection) : PlanSelection where
  terms := selection.terms
  exclude := selection.excludeTerms
  matched := p.reported fun id =>
    match selection.get id with
    | some member => member.isDirect
    | none => false
  expanded := p.reported fun id =>
    match selection.get id with
    | some member => !member.isDirect
    | none => false
  required := p.reported fun id => decide (id ∉ selection.ids)

/-- A planned model's place in the report. -/
structure ReportedOnce (selection : PlanSelection) (name : String) : Prop where
  some_place : name ∈ selection.matched ∨ name ∈ selection.expanded ∨ name ∈ selection.required
  not_matched_expanded : name ∈ selection.matched → name ∉ selection.expanded
  not_matched_required : name ∈ selection.matched → name ∉ selection.required
  not_expanded_required : name ∈ selection.expanded → name ∉ selection.required

/-- The plan is the least dependency-closed set around the selection, in dependency order,
and reports every planned model once. -/
structure IsLeastPlan (p : Planning) (selection : Core.Selection) (plan : Plan) : Prop where
  selected : ∀ id ∈ selection.ids, id ∈ p.plannedIds
  closed : ∀ id ∈ p.plannedIds, ∀ dependency, DependsOn p.compilation.models id dependency →
    dependency ∉ selection.excludedIds → dependency ∈ p.plannedIds
  least : ∀ S : ModelId → Prop, (∀ id ∈ selection.ids, S id) →
    (∀ id, S id → ∀ dependency, DependsOn p.compilation.models id dependency →
      dependency ∉ selection.excludedIds → S dependency) → ∀ id ∈ p.plannedIds, S id
  excluded : ∀ id ∈ selection.excludedIds, id ∉ p.plannedIds
  once : (plan.models.map PlannedModel.id).Nodup
  planned : ∀ id, id ∈ plan.models.map PlannedModel.id ↔ id ∈ p.plannedIds ∧
    ∃ model ∈ p.compilation.models, model.id = id ∧ model.config.materialization ≠ .ephemeral
  ordered : ∀ pre id post, plan.models.map PlannedModel.id = pre ++ id :: post →
    ∀ dependency ∈ plan.models.map PlannedModel.id,
      Relation.TransGen (DependsOn p.compilation.models) id dependency → dependency ∈ pre
  reported : ∀ id ∈ plan.models.map PlannedModel.id,
    ReportedOnce (p.planSelection selection) id.logicalName
  reported_planned : ∀ name, name ∈ (p.planSelection selection).matched ∨
    name ∈ (p.planSelection selection).expanded ∨ name ∈ (p.planSelection selection).required →
      ∃ id ∈ plan.models.map PlannedModel.id, id.logicalName = name

variable {p}

theorem isPlannable_iff :
    p.isPlannable id = true ↔ ∃ model ∈ p.compilation.models, model.id = id ∧
      model.config.materialization ≠ .ephemeral := by
  unfold isPlannable
  constructor
  · intro h
    split at h
    · next model hmodel =>
        exact ⟨model, Compilation.mem_of_model hmodel, Compilation.id_of_model hmodel,
          of_decide_eq_true h⟩
    · cases h
  · rintro ⟨model, hmodel, rfl, hkind⟩
    rw [Compilation.model_of_mem hmodel]
    exact decide_eq_true hkind

theorem mem_reported : id.logicalName ∈ p.reported test ↔ id ∈ p.order ∧ test id = true := by
  rw [reported, List.mem_map]
  constructor
  · rintro ⟨other, hother, hname⟩
    rw [← ModelId.logicalName_injective hname]
    exact List.mem_filter.1 hother
  · exact fun h => ⟨id, List.mem_filter.2 h, rfl⟩

theorem mem_order (horder : p.compilation.topologicalOrder = some order) :
    id ∈ p.order ↔ id ∈ p.plannedIds ∧ p.isPlannable id = true := by
  have hsplit : p.order = order.filter fun id =>
      decide (id ∈ p.plannedIds) && p.isPlannable id := by
    rw [Planning.order, horder]
    rfl
  rw [hsplit, List.mem_filter, Bool.and_eq_true, decide_eq_true_eq]
  constructor
  · exact fun h => h.2
  · intro h
    obtain ⟨model, hmodel, hid, -⟩ := isPlannable_iff.1 h.2
    have hnode : id ∈ p.compilation.graph.nodes := List.mem_map.2 ⟨model, hmodel, hid⟩
    exact ⟨Library.DependencyGraph.mem_topologicalOrder horder hnode, h⟩

/-- What is planned comes after what it reads, through models that are not planned too. -/
theorem mem_pre_of_order (hlisted : TransformGraph.DependenciesListed p.compilation.models)
    (horder : p.compilation.topologicalOrder = some order) {pre post : List ModelId}
    (hsplit : p.order = pre ++ id :: post) {dependency : ModelId} (hplanned : dependency ∈ p.order)
    (hreads : Relation.TransGen (DependsOn p.compilation.models) id dependency) :
    dependency ∈ pre := by
  let keep : ModelId → Bool := fun id => decide (id ∈ p.plannedIds) && p.isPlannable id
  have hfilter : order.filter keep = pre ++ id :: post := by
    rw [← hsplit, Planning.order, horder]
    rfl
  obtain ⟨left, right, rfl, hleft, hright⟩ := List.filter_eq_append_iff.1 hfilter
  obtain ⟨skipped, rest, rfl, hskipped, -, -⟩ := List.filter_eq_cons_iff.1 hright
  have hedges : Relation.TransGen p.compilation.graph.Edge id dependency :=
    Relation.TransGen.mono (fun _ _ => (graph_edge_iff hlisted).2) _ _ hreads
  have hfirst := Library.DependencyGraph.topologicalOrder_dependencies_first horder
  have hmem : dependency ∈ left ++ skipped :=
    hfirst.mem_of_transGen hedges (left ++ skipped) rest (by simp)
  have hkeep : keep dependency = true := by
    rw [hsplit, ← hfilter] at hplanned
    exact (List.mem_filter.1 hplanned).2
  rcases List.mem_append.1 hmem with hmem | hmem
  · rw [← hleft]
    exact List.mem_filter.2 ⟨hmem, hkeep⟩
  · exact absurd hkeep (hskipped dependency hmem)

/-- A planned model is a direct member, an expanded member or no member. -/
theorem reportedOnce_of_mem {set : SelectorSet} {changed : Option (List ModelId)}
    {selection : Core.Selection}
    (hresolve : p.compilation.resolveSelection set changed = .ok selection) (hid : id ∈ p.order) :
    ReportedOnce (p.planSelection selection) id.logicalName := by
  have hids : id ∈ selection.ids ↔ (selection.get id).isSome = true :=
    Compilation.mem_ids_iff hresolve
  refine ⟨?_, ?_, ?_, ?_⟩ <;> simp only [planSelection, mem_reported, hid, true_and]
  · cases hget : selection.get id with
    | none => simp [hids, hget]
    | some member => cases hdirect : member.isDirect <;> simp [hdirect]
  · cases hget : selection.get id with
    | none => simp
    | some member => cases hdirect : member.isDirect <;> simp [hdirect]
  · cases hget : selection.get id with
    | none => simp
    | some member => simp [hids, hget]
  · cases hget : selection.get id with
    | none => simp
    | some member => simp [hids, hget]

theorem exists_of_mem_reported {name : String} (h : name ∈ p.reported test) :
    ∃ id ∈ p.order, id.logicalName = name := by
  rw [reported, List.mem_map] at h
  obtain ⟨id, hid, hname⟩ := h
  exact ⟨id, (List.mem_filter.1 hid).1, hname⟩

variable [Rfc3339]

/-- A plan for a resolved selection of an acyclic workspace is the least dependency-closed
one, in dependency order. -/
theorem isLeastPlan_of_plan (hlisted : TransformGraph.DependenciesListed p.compilation.models)
    (hacyclic : ∀ id, ¬ Relation.TransGen (DependsOn p.compilation.models) id id)
    {set : SelectorSet} {changed : Option (List ModelId)} {selection : Core.Selection}
    (hresolve : p.compilation.resolveSelection set changed = .ok selection)
    (hselection : p.selection = Selection.ofResolved selection) {planId : String} {plan : Plan}
    (hplan : p.plan planId = .ok plan) : IsLeastPlan p selection plan := by
  obtain ⟨order, horder⟩ := exists_topologicalOrder hlisted hacyclic
  have hplanned : plan.models.map PlannedModel.id = p.order := by
    obtain ⟨exist, -, -, -, -, hmodels, -⟩ := plan_eq_ok hplan
    rw [hmodels, List.map_map]
    exact p.orderModels_id
  have hclosure : p.plannedIds = dependencyClosureExcluding p.compilation selection.ids
      selection.excludedIds := by
    rw [plannedIds, hselection]
    rfl
  obtain ⟨hselected, hclosed, hleast⟩ := dependencyClosureExcluding_least p.compilation
    selection.ids selection.excludedIds
  rw [← hclosure] at hselected hclosed hleast
  refine ⟨hselected, ?_, ?_, ?_, plan.models_nodup, ?_, ?_, ?_, ?_⟩
  · intro id hid dependency hreads hnot
    exact hclosed id hid dependency (mem_keptDependencies.2 ⟨hreads, hnot⟩)
  · intro S hS hstep
    apply hleast S hS
    intro id hid dependency hdependency
    have hkept := mem_keptDependencies.1 hdependency
    exact hstep id hid dependency hkept.1 hkept.2
  · intro id hid hmem
    rw [hclosure] at hmem
    exact notMem_dependencyClosureExcluding
      (fun id hid => Compilation.notMem_excludedIds_of_mem_ids hresolve hid) id hmem hid
  · intro id
    rw [hplanned, mem_order horder, isPlannable_iff]
  · intro pre id post hsplit dependency hdependency hreads
    rw [hplanned] at hsplit hdependency
    exact mem_pre_of_order hlisted horder hsplit hdependency hreads
  · intro id hid
    rw [hplanned] at hid
    exact reportedOnce_of_mem hresolve hid
  · intro name hname
    rw [hplanned]
    rcases hname with hname | hname | hname
    · exact exists_of_mem_reported hname
    · exact exists_of_mem_reported hname
    · exact exists_of_mem_reported hname

end Planning

/-! ## A plan with an exclusion -/

namespace Sample

def withoutStage : SelectorSet where
  exclude := [⟨false, false, .name "assay.stage", "assay.stage"⟩]

def withoutStageSelection : Core.Selection where
  members := [⟨"assay.raw", ["*"], []⟩, ⟨"assay.report", ["*"], []⟩]
  excluded := ["assay.stage"]
  terms := []
  excludeTerms := ["assay.stage"]

def forkedPlanning : Planning :=
  { planning Core.Sample.forked [] with
    selection := Selection.ofResolved withoutStageSelection }

abbrev blindClock : Rfc3339 where
  parse := fun _ => none

end Sample

open Sample in
/-- The first table and the report are planned, the excluded stage is not. -/
theorem Planning.isLeastPlan_of_plan_forked :
    ∃ plan, @Planning.plan forkedPlanning blindClock "p" = .ok plan ∧
      Planning.IsLeastPlan forkedPlanning withoutStageSelection plan := by
  let clock : Rfc3339 := blindClock
  have hok : (forkedPlanning.plan "p").isOk = true := by decide +kernel
  cases hplan : forkedPlanning.plan "p" with
  | error e => simp [hplan, Except.isOk, Except.toBool] at hok
  | ok plan =>
    refine ⟨plan, rfl, ?_⟩
    apply Planning.isLeastPlan_of_plan
      (show Core.TransformGraph.DependenciesListed Core.Sample.forked.models by decide +kernel)
      (Core.Sample.forked.acyclic rfl)
      (show Core.Sample.forked.resolveSelection withoutStage none =
        .ok withoutStageSelection by decide +kernel)
      rfl hplan

end PhloTransform.Engine
