import PhloTransform.Core.Compiled
import PhloTransform.Library.CycleSearch
import PhloTransform.Library.LeastOrder

/-!
# The transform graph

The graph of the models and the sources they read.  Nodes and edges are inserted
once each; a dependency that is no node makes the construction fail.  Scheduling
uses the model edges only: Kahn's algorithm orders the models, and a depth-first
search reports a cycle.

Main results:

- Theorem `TransformGraph.build_of_listed`: models whose dependencies are listed
  have a graph, with an edge for every dependency.
- Theorem `order_and_cycle_complementary`: there is an order exactly when there is
  no cycle; the order is the least one, and the cycle is one along dependencies.
-/

namespace PhloTransform.Core

/-- A node in the transform graph. -/
inductive GraphNode where
  | model (id : ModelId)
  | source (id : SourceId)
deriving DecidableEq

def Dependency.node : Dependency → GraphNode
  | model id => .model id
  | source id => .source id

def GraphNode.dependency : GraphNode → Dependency
  | model id => .model id
  | source id => .source id

theorem Dependency.sortKey_injective : Function.Injective Dependency.sortKey := by
  intro a b h
  cases a with
  | model id =>
    cases b with
    | model id' =>
      simp only [sortKey, EmbeddingLike.apply_eq_iff_eq, Prod.mk.injEq, List.cons.injEq] at h
      exact congrArg model (ModelId.ext h.2.1 h.2.2)
    | source id' => simp [sortKey] at h
  | source id =>
    cases b with
    | model id' => simp [sortKey] at h
    | source id' =>
      obtain ⟨parts, _⟩ := id
      obtain ⟨parts', _⟩ := id'
      simpa [sortKey] using h

instance : LinearOrder Dependency :=
  LinearOrder.lift' Dependency.sortKey Dependency.sortKey_injective

/-- A directed graph of models and the sources they read. -/
structure TransformGraph where
  nodes : List GraphNode
  nodes_nodup : nodes.Nodup
  edges : List (GraphNode × GraphNode)
  edges_nodup : edges.Nodup
  edges_known : ∀ edge ∈ edges, edge.1 ∈ nodes ∧ edge.2 ∈ nodes

namespace TransformGraph

variable {α : Type*} {models : List CompiledModel}

def empty : TransformGraph where
  nodes := []
  nodes_nodup := List.nodup_nil
  edges := []
  edges_nodup := List.nodup_nil
  edges_known := by simp

/-- `ensure_node`: insert a node unless it is there. -/
def ensureNode (graph : TransformGraph) (node : GraphNode) : TransformGraph :=
  if h : node ∈ graph.nodes then graph
  else
    { graph with
      nodes := graph.nodes ++ [node]
      nodes_nodup := List.nodup_append.2 ⟨graph.nodes_nodup, by simp,
        by simpa using fun a ha (hn : a = node) => h (hn ▸ ha)⟩
      edges_known := fun edge hedge =>
        ⟨List.mem_append_left _ (graph.edges_known edge hedge).1,
          List.mem_append_left _ (graph.edges_known edge hedge).2⟩ }

/-- Look both ends up and add the edge unless it is there.  The lookup panics for
an end that is no node. -/
def ensureEdge (graph : TransformGraph) (start target : GraphNode) : Option TransformGraph :=
  if hknown : start ∈ graph.nodes ∧ target ∈ graph.nodes then
    if h : (start, target) ∈ graph.edges then some graph
    else
      some { graph with
        edges := graph.edges ++ [(start, target)]
        edges_nodup := List.nodup_append.2 ⟨graph.edges_nodup, by simp,
          by simpa using fun a ha (hn : a = (start, target)) => h (hn ▸ ha)⟩
        edges_known := by
          intro edge hedge
          rcases List.mem_append.1 hedge with hold | hnew
          · exact graph.edges_known edge hold
          · rw [List.mem_singleton.1 hnew]
            exact hknown }
  else none

/-- The sources that the models read, sorted. -/
def sourceIds (models : List CompiledModel) : List SourceId :=
  ((models.flatMap CompiledModel.sourceDependencies).map
    Dependency.source).dedup.insertionSort (· ≤ ·) |>.filterMap fun
      | .model _ => none
      | .source id => some id

/-- Build the graph from compiled models. -/
def build (models : List CompiledModel) : Option TransformGraph :=
  let graph := models.foldl (fun graph model => graph.ensureNode (.model model.id)) empty
  let graph := (sourceIds models).foldl (fun graph id => graph.ensureNode (.source id)) graph
  models.foldlM (fun graph model =>
    model.dependencies.foldlM (fun graph dependency =>
      graph.ensureEdge (.model model.id) dependency.node) graph) graph

variable (graph : TransformGraph)

def modelIds : List ModelId :=
  (graph.nodes.filterMap fun
    | .model id => some id
    | .source _ => none).insertionSort (· ≤ ·)

/-- Direct dependencies of a model, sorted. -/
def dependencies (id : ModelId) : List Dependency :=
  ((graph.edges.filter fun edge => decide (edge.1 = .model id)).map
    fun edge => edge.2.dependency).insertionSort (· ≤ ·)

def modelDependencies (id : ModelId) : List ModelId :=
  (graph.dependencies id).filterMap fun
    | .model dependency => some dependency
    | .source _ => none

/-! ## What is inserted -/

variable {graph}

theorem mem_nodes_ensureNode {node other : GraphNode} :
    other ∈ (graph.ensureNode node).nodes ↔ other ∈ graph.nodes ∨ other = node := by
  unfold ensureNode
  split
  · next hmem =>
      constructor
      · exact Or.inl
      · rintro (hold | rfl)
        · exact hold
        · exact hmem
  · simp

theorem edges_ensureNode (node : GraphNode) : (graph.ensureNode node).edges = graph.edges := by
  unfold ensureNode
  split <;> rfl

theorem mem_nodes_foldl_ensureNode (node : α → GraphNode) (items : List α) {other : GraphNode} :
    other ∈ (items.foldl (fun graph item => graph.ensureNode (node item)) graph).nodes ↔
      other ∈ graph.nodes ∨ ∃ item ∈ items, other = node item := by
  induction items generalizing graph with
  | nil => simp
  | cons item items ih =>
    rw [List.foldl_cons, ih, mem_nodes_ensureNode, List.exists_mem_cons_iff, or_assoc]

theorem edges_foldl_ensureNode (node : α → GraphNode) (items : List α) :
    (items.foldl (fun graph item => graph.ensureNode (node item)) graph).edges = graph.edges := by
  induction items generalizing graph with
  | nil => rfl
  | cons item items ih => rw [List.foldl_cons, ih, edges_ensureNode]

theorem ensureEdge_eq_some {start target : GraphNode} (hstart : start ∈ graph.nodes)
    (htarget : target ∈ graph.nodes) :
    ∃ graph', graph.ensureEdge start target = some graph' ∧ graph'.nodes = graph.nodes ∧
      ∀ edge, edge ∈ graph'.edges ↔ edge ∈ graph.edges ∨ edge = (start, target) := by
  unfold ensureEdge
  rw [dif_pos ⟨hstart, htarget⟩]
  by_cases hmem : (start, target) ∈ graph.edges
  · rw [dif_pos hmem]
    refine ⟨graph, rfl, rfl, fun edge => ⟨Or.inl, ?_⟩⟩
    rintro (hold | rfl)
    · exact hold
    · exact hmem
  · rw [dif_neg hmem]
    exact ⟨_, rfl, rfl, fun edge => by simp⟩

/-- Inserting edges between known nodes succeeds and adds those edges. -/
theorem foldlM_ensureEdge (graph : TransformGraph) (ends : α → GraphNode × GraphNode)
    (items : List α) (h : ∀ item ∈ items, (ends item).1 ∈ graph.nodes ∧ (ends item).2 ∈ graph.nodes)
    :
    ∃ graph', items.foldlM (fun graph item => graph.ensureEdge (ends item).1 (ends item).2)
        graph = some graph' ∧ graph'.nodes = graph.nodes ∧
      ∀ edge, edge ∈ graph'.edges ↔ edge ∈ graph.edges ∨ ∃ item ∈ items, edge = ends item := by
  induction items generalizing graph with
  | nil => exact ⟨graph, rfl, rfl, by simp⟩
  | cons item items ih =>
    obtain ⟨graph₁, hone, hnodes₁, hedges₁⟩ :=
      ensureEdge_eq_some (h item List.mem_cons_self).1 (h item List.mem_cons_self).2
    obtain ⟨graph', hrest, hnodes, hedges⟩ := ih graph₁ (by
      rw [hnodes₁]
      exact fun other hother => h other (List.mem_cons_of_mem _ hother))
    refine ⟨graph', ?_, hnodes.trans hnodes₁, fun edge => ?_⟩
    · rw [List.foldlM_cons, hone]
      exact hrest
    · rw [hedges, hedges₁, List.exists_mem_cons_iff, or_assoc]

/-- The model dependencies name listed models. -/
def DependenciesListed (models : List CompiledModel) : Prop :=
  ∀ model ∈ models, ∀ id ∈ model.modelDependencies, ∃ other ∈ models, other.id = id

instance (models : List CompiledModel) : Decidable (DependenciesListed models) :=
  inferInstanceAs (Decidable (∀ model ∈ models, ∀ id ∈ model.modelDependencies,
    ∃ other ∈ models, other.id = id))

theorem mem_sourceIds {id : SourceId} :
    id ∈ sourceIds models ↔ ∃ model ∈ models, Dependency.source id ∈ model.dependencies := by
  have hread : ∀ model : CompiledModel,
      id ∈ model.sourceDependencies ↔ Dependency.source id ∈ model.dependencies := by
    intro model
    simp only [CompiledModel.sourceDependencies, List.mem_filterMap]
    constructor
    · rintro ⟨dependency, hmem, hid⟩
      cases dependency with
      | model _ => cases hid
      | source _ => simpa [← Option.some.inj hid] using hmem
    · exact fun hmem => ⟨.source id, hmem, rfl⟩
  simp only [sourceIds, List.mem_filterMap, List.mem_insertionSort, List.mem_dedup,
    List.mem_map, List.mem_flatMap]
  constructor
  · rintro ⟨_, ⟨other, ⟨model, hmodel, hmem⟩, rfl⟩, hid⟩
    obtain rfl : other = id := Option.some.inj hid
    exact ⟨model, hmodel, (hread model).1 hmem⟩
  · rintro ⟨model, hmodel, hmem⟩
    exact ⟨_, ⟨id, ⟨model, hmodel, (hread model).2 hmem⟩, rfl⟩, rfl⟩

/-- Models whose dependencies are listed have a graph, with an edge for every
dependency. -/
theorem build_of_listed (h : DependenciesListed models) :
    ∃ graph, build models = some graph ∧
      (∀ id, GraphNode.model id ∈ graph.nodes ↔ ∃ model ∈ models, model.id = id) ∧
      ∀ edge, edge ∈ graph.edges ↔ ∃ model ∈ models, ∃ dependency ∈ model.dependencies,
        edge = (.model model.id, dependency.node) := by
  let graph₀ := (sourceIds models).foldl (fun graph id => graph.ensureNode (.source id))
    (models.foldl (fun graph model => graph.ensureNode (.model model.id)) empty)
  have hnodes₀ : ∀ node, node ∈ graph₀.nodes ↔
      (∃ model ∈ models, node = .model model.id) ∨
        ∃ id ∈ sourceIds models, node = .source id := by
    intro node
    rw [show graph₀ = _ from rfl, mem_nodes_foldl_ensureNode, mem_nodes_foldl_ensureNode]
    simp [empty]
  have hedges₀ : graph₀.edges = [] := by
    rw [show graph₀ = _ from rfl, edges_foldl_ensureNode, edges_foldl_ensureNode]
    rfl
  have hknown : ∀ model ∈ models, ∀ dependency ∈ model.dependencies,
      GraphNode.model model.id ∈ graph₀.nodes ∧ dependency.node ∈ graph₀.nodes := by
    intro model hmodel dependency hdependency
    refine ⟨(hnodes₀ _).2 (Or.inl ⟨model, hmodel, rfl⟩), (hnodes₀ _).2 ?_⟩
    cases dependency with
    | model id =>
      obtain ⟨other, hother, rfl⟩ :=
        h model hmodel id (CompiledModel.mem_modelDependencies.2 hdependency)
      exact Or.inl ⟨other, hother, rfl⟩
    | source id => exact Or.inr ⟨id, mem_sourceIds.2 ⟨model, hmodel, hdependency⟩, rfl⟩
  -- The edges of one model after another, all between nodes of `graph₀`.
  have hmodels : ∀ (rest : List CompiledModel) (graph : TransformGraph),
      (∀ model ∈ rest, model ∈ models) → graph.nodes = graph₀.nodes →
      ∃ graph', rest.foldlM (fun graph model =>
          model.dependencies.foldlM (fun graph dependency =>
            graph.ensureEdge (.model model.id) dependency.node) graph) graph = some graph' ∧
        graph'.nodes = graph₀.nodes ∧
        ∀ edge, edge ∈ graph'.edges ↔ edge ∈ graph.edges ∨
          ∃ model ∈ rest, ∃ dependency ∈ model.dependencies,
            edge = (.model model.id, dependency.node) := by
    intro rest
    induction rest with
    | nil => exact fun graph _ hnodes => ⟨graph, rfl, hnodes, by simp⟩
    | cons model rest ih =>
      intro graph hrest hnodes
      obtain ⟨graph₁, hone, hnodes₁, hedges₁⟩ := foldlM_ensureEdge graph
        (fun dependency : Dependency => (GraphNode.model model.id, dependency.node))
        model.dependencies (by
          rw [hnodes]
          exact hknown model (hrest model List.mem_cons_self))
      obtain ⟨graph', hall, hnodes', hedges'⟩ := ih graph₁
        (fun other hother => hrest other (List.mem_cons_of_mem _ hother))
        (hnodes₁.trans hnodes)
      refine ⟨graph', ?_, hnodes', fun edge => ?_⟩
      · rw [List.foldlM_cons, hone]
        exact hall
      · rw [hedges', hedges₁, List.exists_mem_cons_iff, or_assoc]
  obtain ⟨graph, hbuild, hnodes, hedges⟩ := hmodels models graph₀ (fun _ hm => hm) rfl
  refine ⟨graph, hbuild, fun id => ?_, fun edge => ?_⟩
  · rw [hnodes, hnodes₀]
    simp [eq_comm]
  · rw [hedges, hedges₀]
    simp

/-! ## Scheduling -/

theorem mem_modelIds {id : ModelId} : id ∈ graph.modelIds ↔ GraphNode.model id ∈ graph.nodes := by
  rw [modelIds, List.mem_insertionSort, List.mem_filterMap]
  constructor
  · rintro ⟨node, hnode, hid⟩
    cases node with
    | model id' => simpa [← Option.some.inj hid] using hnode
    | source _ => cases hid
  · exact fun hnode => ⟨_, hnode, rfl⟩

theorem modelIds_nodup (graph : TransformGraph) : graph.modelIds.Nodup := by
  rw [modelIds, (List.perm_insertionSort _ _).nodup_iff]
  refine graph.nodes_nodup.filterMap fun a a' b hb hb' => ?_
  cases a <;> cases a' <;> simp_all

theorem GraphNode.dependency_injective : Function.Injective GraphNode.dependency := by
  intro a b h
  cases a <;> cases b <;> simp_all [GraphNode.dependency]

theorem dependencies_nodup (graph : TransformGraph) (id : ModelId) :
    (graph.dependencies id).Nodup := by
  rw [dependencies, (List.perm_insertionSort _ _).nodup_iff]
  refine (List.nodup_map_iff_inj_on (graph.edges_nodup.filter _)).2 ?_
  intro a ha b hb hab
  have hstart : a.1 = b.1 := by
    have ha' := (List.mem_filter.1 ha).2
    have hb' := (List.mem_filter.1 hb).2
    rw [decide_eq_true_eq] at ha' hb'
    rw [ha', hb']
  exact Prod.ext hstart (GraphNode.dependency_injective hab)

theorem modelDependencies_nodup (graph : TransformGraph) (id : ModelId) :
    (graph.modelDependencies id).Nodup := by
  refine (graph.dependencies_nodup id).filterMap fun a a' b hb hb' => ?_
  cases a <;> cases a' <;> simp_all

theorem mem_modelDependencies {id dependency : ModelId} :
    dependency ∈ graph.modelDependencies id ↔
      (GraphNode.model id, GraphNode.model dependency) ∈ graph.edges := by
  simp only [modelDependencies, dependencies, List.mem_filterMap, List.mem_insertionSort,
    List.mem_map, List.mem_filter, decide_eq_true_eq]
  constructor
  · rintro ⟨_, ⟨⟨start, target⟩, ⟨hmem, rfl⟩, rfl⟩, hid⟩
    cases target with
    | model id' =>
      obtain rfl : id' = dependency := Option.some.inj hid
      exact hmem
    | source _ => cases hid
  · exact fun hmem => ⟨.model dependency, ⟨_, ⟨hmem, rfl⟩, rfl⟩, rfl⟩

/-- The model-only dependency edges, used for scheduling. -/
def modelEdges (graph : TransformGraph) : Library.DependencyGraph ModelId where
  nodes := graph.modelIds
  nodes_nodup := graph.modelIds_nodup
  deps := graph.modelDependencies
  deps_nodup := graph.modelDependencies_nodup

/-- The topological model order, dependencies before dependents; absent when the
model graph contains a cycle. -/
def topologicalOrder (graph : TransformGraph) : Option (List ModelId) :=
  graph.modelEdges.topologicalOrder

/-- A concrete cycle path, if the graph contains one. -/
def cycle (graph : TransformGraph) : Option (List ModelId) :=
  graph.modelEdges.cycle

theorem modelEdges_closed (graph : TransformGraph) : graph.modelEdges.Closed := by
  intro a _ d hd
  exact mem_modelIds.2 (graph.edges_known _ (mem_modelDependencies.1 hd)).2

/-- The graph that is built has the listed models and their dependencies. -/
theorem modelEdges_of_build (h : DependenciesListed models) {graph : TransformGraph}
    (hbuild : build models = some graph) :
    graph.modelIds.Perm (models.map CompiledModel.id).dedup ∧
      ∀ a b, b ∈ graph.modelDependencies a ↔ DependsOn models a b := by
  obtain ⟨graph', hbuild', hnodes, hedges⟩ := build_of_listed h
  obtain rfl : graph' = graph := Option.some.inj (hbuild'.symm.trans hbuild)
  constructor
  · refine (List.perm_ext_iff_of_nodup (modelIds_nodup _) (List.nodup_dedup _)).2 fun id => ?_
    rw [mem_modelIds, hnodes, List.mem_dedup, List.mem_map]
  · intro a b
    rw [mem_modelDependencies, hedges]
    constructor
    · rintro ⟨model, hmodel, dependency, hdependency, hedge⟩
      rw [Prod.mk.injEq, GraphNode.model.injEq] at hedge
      cases dependency with
      | model id =>
        obtain rfl : b = id := GraphNode.model.inj hedge.2
        exact ⟨model, hmodel, hedge.1.symm, CompiledModel.mem_modelDependencies.2 hdependency⟩
      | source id => cases hedge.2
    · rintro ⟨model, hmodel, rfl, hdependency⟩
      exact ⟨model, hmodel, .model b, CompiledModel.mem_modelDependencies.1 hdependency, rfl⟩

end TransformGraph

/-- Every model of the list comes after the models it reads. -/
def ReadsFirst (models : List CompiledModel) (order : List ModelId) : Prop :=
  ∀ pre id post, order = pre ++ id :: post → ∀ dependency,
    DependsOn models id dependency → dependency ∈ pre

/-- A path of reads from a model back to itself that meets no other model twice. -/
structure ReadCycle (models : List CompiledModel) (path : List ModelId) : Prop where
  length : 2 ≤ path.length
  closes : path.head? = path.getLast?
  edges : path.IsChain (DependsOn models)
  distinct : path.dropLast.Nodup

/-- The order is a least one that puts dependencies first, and there is one exactly when
no cycle is reported; what is reported is a cycle.  Both loops end: a round for every
model is enough, and so are as many nested visits. -/
theorem order_and_cycle_complementary (models : List CompiledModel)
    (h : TransformGraph.DependenciesListed models) :
    ∃ graph, TransformGraph.build models = some graph ∧
      (graph.topologicalOrder.isSome ↔ graph.cycle = none) ∧
      (∀ order, graph.topologicalOrder = some order →
        order.Perm (models.map CompiledModel.id).dedup ∧ ReadsFirst models order ∧
          ∀ other, other.Perm (models.map CompiledModel.id).dedup → ReadsFirst models other →
            Library.DependencyGraph.LexLE order other) ∧
      (∀ path, graph.cycle = some path → ReadCycle models path) ∧
      ∀ fuel, graph.modelIds.length ≤ fuel →
        graph.modelEdges.emitted fuel = graph.modelEdges.emitted graph.modelIds.length ∧
          graph.modelEdges.search fuel = graph.modelEdges.search graph.modelIds.length ∧
          graph.modelEdges.search fuel ≠ .outOfFuel := by
  obtain ⟨graph, hbuild, -⟩ := TransformGraph.build_of_listed h
  obtain ⟨hids, hdeps⟩ := TransformGraph.modelEdges_of_build h hbuild
  have hclosed := graph.modelEdges_closed
  have hfirst : ∀ order, graph.modelEdges.DependenciesFirst order ↔ ReadsFirst models order := by
    intro order
    refine forall_congr' fun pre => forall_congr' fun id => forall_congr' fun post =>
      imp_congr_right fun _ => forall_congr' fun dependency => ?_
    exact imp_congr_left (hdeps id dependency)
  have hedge : ∀ a b, graph.modelEdges.Edge a b → DependsOn models a b :=
    fun a b hab => (hdeps a b).1 hab.2.2
  refine ⟨graph, hbuild, ?_, ?_, ?_, ?_⟩
  · exact (Library.DependencyGraph.topologicalOrder_isSome_iff hclosed).trans
      (Library.DependencyGraph.cycle_eq_none_iff hclosed).symm
  · intro order horder
    refine ⟨(Library.DependencyGraph.topologicalOrder_perm horder).trans hids, ?_, ?_⟩
    · exact (hfirst order).1 (Library.DependencyGraph.topologicalOrder_dependencies_first horder)
    · intro other hperm hreads
      exact Library.DependencyGraph.topologicalOrder_le horder (hperm.trans hids.symm)
        ((hfirst other).2 hreads)
  · intro path hpath
    obtain ⟨hlength, hcloses, hedges, hdistinct⟩ :=
      Library.DependencyGraph.isCycle_of_cycle hclosed hpath
    exact ⟨hlength, hcloses, hedges.imp hedge, hdistinct⟩
  · intro fuel hfuel
    refine ⟨Library.DependencyGraph.emitted_eq_of_le hfuel,
      Library.DependencyGraph.search_eq_of_le hclosed hfuel, fun hstarved => ?_⟩
    have hspec := Library.DependencyGraph.search_spec hclosed hfuel
    rw [hstarved] at hspec
    exact hspec

/-- Two models, the second reading the first. -/
theorem order_and_cycle_complementary_chain :
    ∃ graph, TransformGraph.build Sample.chain.models = some graph ∧
      (graph.topologicalOrder.isSome ↔ graph.cycle = none) := by
  obtain ⟨graph, hbuild, hiff, -⟩ := order_and_cycle_complementary Sample.chain.models
    (by decide)
  exact ⟨graph, hbuild, hiff⟩
end PhloTransform.Core
