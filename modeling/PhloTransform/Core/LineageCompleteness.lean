import PhloTransform.Core.LineageImpact
import PhloTransform.Core.ModelVersions

/-!
# Completeness of the lineage graph

The graph is built in passes.  An edge between nodes that are not both there is dropped,
and the datasets of sources come from the dependencies of the models alone.

Main results:

- Theorem `LineageGraph.asked_of_holds`: the graph holds nothing that no pass asks for.
- Theorem `mem_downstream_iff_draws`: in a graph that lost nothing, what is downstream of
  a dataset is what draws on it.
-/

namespace PhloTransform.Core

/-! ## What a graph holds -/

/-- A node or an edge. -/
inductive LineageItem where
  | node (node : LineageNode)
  | edge (origin target : LineageNode) (edge : LineageEdge)

namespace LineageGraph

variable {data : NodeMeta}

def Holds (graph : LineageGraph) : LineageItem → Prop
  | .node node => node ∈ graph.nodes.map Prod.fst
  | .edge origin target edge => (origin, target, edge) ∈ graph.edges

/-- The second graph holds all that the first one does. -/
def Grows (graph later : LineageGraph) : Prop :=
  ∀ item, graph.Holds item → later.Holds item

variable {graph later : LineageGraph} {item : LineageItem} {a b : LineageNode}
  {edge : LineageEdge}

theorem Grows.refl (graph : LineageGraph) : Grows graph graph :=
  fun _ h => h

theorem Grows.trans {last : LineageGraph} (h : Grows graph later) (h' : Grows later last) :
    Grows graph last :=
  fun item hitem => h' item (h item hitem)

theorem not_holds_empty : ¬empty.Holds item := by
  cases item <;> simp [Holds, empty]

theorem Holds.endpoints (h : graph.Holds (.edge a b edge)) :
    graph.Holds (.node a) ∧ graph.Holds (.node b) :=
  graph.endpoints _ h

@[simp]
theorem holds_ensureNode {node : LineageNode} :
    (graph.ensureNode node data).Holds item ↔ item = .node node ∨ graph.Holds item := by
  cases item with
  | node other =>
    rw [LineageItem.node.injEq]
    exact mem_keys_insertNode
  | edge origin target e => simp [Holds, ensureNode]

@[simp]
theorem holds_addEdge :
    (graph.addEdge a b edge).Holds item ↔
      (item = .edge a b edge ∧ graph.Holds (.node a) ∧ graph.Holds (.node b)) ∨
        graph.Holds item := by
  unfold addEdge
  split
  · next h =>
      cases item with
      | node other => simp [Holds]
      | edge origin target e =>
        simp only [Holds, List.mem_append, List.mem_singleton, LineageItem.edge.injEq,
          Prod.mk.injEq]
        rw [or_comm, and_iff_left h.1]
  · next h =>
      constructor
      · exact .inr
      · rintro (⟨rfl, hends⟩ | hold)
        · exact not_not.1 fun hnew => h ⟨hends, hnew⟩
        · exact hold

theorem grows_ensureNode {node : LineageNode} : Grows graph (graph.ensureNode node data) :=
  fun _ h => holds_ensureNode.2 (.inr h)

theorem grows_addEdge : Grows graph (graph.addEdge a b edge) :=
  fun _ h => holds_addEdge.2 (.inr h)

/-! ## Passes -/

section Passes

variable {α : Type*} {step : LineageGraph → α → LineageGraph} {xs : List α}

theorem grows_foldl (h : ∀ graph x, Grows graph (step graph x)) (graph : LineageGraph) :
    Grows graph (xs.foldl step graph) := by
  induction xs generalizing graph with
  | nil => exact .refl graph
  | cons x xs ih => exact (h graph x).trans (ih _)

theorem holds_foldl (h : ∀ graph x, Grows graph (step graph x)) {x : α} (hx : x ∈ xs)
    (hitem : ∀ later, Grows graph later → (step later x).Holds item) :
    (xs.foldl step graph).Holds item := by
  induction xs generalizing graph with
  | nil => exact absurd hx List.not_mem_nil
  | cons first xs ih =>
    rw [List.foldl_cons]
    rcases List.mem_cons.1 hx with rfl | hlater
    · exact grows_foldl h _ item (hitem graph (.refl graph))
    · exact ih hlater fun later hgrows => hitem later ((h graph first).trans hgrows)

/-- Nothing is there that was not before and that no turn adds. -/
theorem foldl_cases {Q : LineageItem → Prop}
    (h : ∀ x ∈ xs, ∀ graph item, (step graph x).Holds item → graph.Holds item ∨ Q item)
    (hitem : (xs.foldl step graph).Holds item) : graph.Holds item ∨ Q item := by
  induction xs generalizing graph with
  | nil => exact .inl hitem
  | cons first xs ih =>
    rw [List.foldl_cons] at hitem
    rcases ih (fun x hx => h x (List.mem_cons_of_mem _ hx)) hitem with hold | hnew
    · exact h first List.mem_cons_self graph item hold
    · exact .inr hnew

end Passes

end LineageGraph

/-! ## What the passes ask for -/

def Dependency.dataset : Dependency → DatasetId
  | .model id => .model id
  | .source s => .source s

def LineageModel.columnNode (model : LineageModel) (column : OutputColumn) : LineageNode :=
  .column { dataset := .model model.id, name := column.name }

def ColumnInput.node (input : ColumnInput) : LineageNode :=
  .column { dataset := .relation input.relation, name := input.column }

/-- The nodes and edges that the passes ask for. -/
inductive Asked (c : CompiledLineage) : LineageItem → Prop
  | model (m : LineageModel) (hm : m ∈ c.models) : Asked c (.node (.model m.id))
  | output (m : LineageModel) (hm : m ∈ c.models) : Asked c (.node (.dataset (.model m.id)))
  | produces (m : LineageModel) (hm : m ∈ c.models) :
      Asked c (.edge (.model m.id) (.dataset (.model m.id)) (.plain .output))
  | source (s : SourceId) (hs : s ∈ c.sources) : Asked c (.node (.dataset (.source s)))
  | input (m : LineageModel) (hm : m ∈ c.models) (d : Dependency) (hd : d ∈ m.dependencies) :
      Asked c (.edge (.dataset d.dataset) (.model m.id) (.plain .input))
  | derivesModel (m : LineageModel) (hm : m ∈ c.models) (id : ModelId)
      (hd : .model id ∈ m.dependencies) :
      Asked c (.edge (.model id) (.model m.id) (.plain .derives))
  | derivesDataset (m : LineageModel) (hm : m ∈ c.models) (d : Dependency)
      (hd : d ∈ m.dependencies) :
      Asked c (.edge (.dataset d.dataset) (.dataset (.model m.id)) (.plain .derives))
  | column (m : LineageModel) (hm : m ∈ c.models) (column : OutputColumn)
      (hcolumn : column ∈ m.columns) : Asked c (.node (m.columnNode column))
  | contains (m : LineageModel) (hm : m ∈ c.models) (column : OutputColumn)
      (hcolumn : column ∈ m.columns) :
      Asked c (.edge (.dataset (.model m.id)) (m.columnNode column) (.plain .contains))
  | inputColumn (m : LineageModel) (hm : m ∈ c.models) (column : OutputColumn)
      (hcolumn : column ∈ m.columns) (i : ColumnInput) (hi : i ∈ column.inputs) :
      Asked c (.node i.node)
  | inputContains (m : LineageModel) (hm : m ∈ c.models) (column : OutputColumn)
      (hcolumn : column ∈ m.columns) (i : ColumnInput) (hi : i ∈ column.inputs) :
      Asked c (.edge (.dataset (.relation i.relation)) i.node (.plain .contains))
  | derivesColumn (m : LineageModel) (hm : m ∈ c.models) (column : OutputColumn)
      (hcolumn : column ∈ m.columns) (i : ColumnInput) (hi : i ∈ column.inputs) :
      Asked c (.edge i.node (m.columnNode column) (.fromInput i))
  | test (t : LineageTest) (ht : t ∈ c.tests) : Asked c (.node (.test t.id))
  | testsModel (t : LineageTest) (ht : t ∈ c.tests) (id : ModelId) (hid : id ∈ t.targets) :
      Asked c (.edge (.dataset (.model id)) (.test t.id) (.plain .tests))
  | testsSource (t : LineageTest) (ht : t ∈ c.tests) (s : SourceId) (hs : s ∈ t.sources) :
      Asked c (.edge (.dataset (.source s)) (.test t.id) (.plain .tests))

namespace LineageGraph

variable {c : CompiledLineage} {graph : LineageGraph} {item : LineageItem}
variable {m : LineageModel} {s : SourceId}
variable {seeds : List LineageSeed} {d : Dependency} {column : OutputColumn} {t : LineageTest}

theorem addModel_cases (hm : m ∈ c.models) (h : (graph.addModel m).Holds item) :
    graph.Holds item ∨ Asked c item := by
  simp only [addModel, holds_addEdge, holds_ensureNode] at h
  rcases h with ⟨rfl, -⟩ | rfl | rfl | hold
  · exact .inr (.produces m hm)
  · exact .inr (.output m hm)
  · exact .inr (.model m hm)
  · exact .inl hold

theorem addSource_cases (hs : s ∈ c.sources) (h : (addSource seeds graph s).Holds item) :
    graph.Holds item ∨ Asked c item := by
  simp only [addSource, holds_ensureNode] at h
  rcases h with rfl | hold
  · exact .inr (.source s hs)
  · exact .inl hold

theorem addDependency_cases (hm : m ∈ c.models) (hd : d ∈ m.dependencies)
    (h : (addDependency m graph d).Holds item) : graph.Holds item ∨ Asked c item := by
  cases d with
  | model id =>
    simp only [addDependency, holds_addEdge] at h
    rcases h with ⟨rfl, -⟩ | ⟨rfl, -⟩ | ⟨rfl, -⟩ | hold
    · exact .inr (.derivesDataset m hm _ hd)
    · exact .inr (.derivesModel m hm id hd)
    · exact .inr (.input m hm _ hd)
    · exact .inl hold
  | source s =>
    simp only [addDependency, holds_addEdge] at h
    rcases h with ⟨rfl, -⟩ | ⟨rfl, -⟩ | hold
    · exact .inr (.derivesDataset m hm _ hd)
    · exact .inr (.input m hm _ hd)
    · exact .inl hold

theorem addColumn_cases (hm : m ∈ c.models) (hcolumn : column ∈ m.columns)
    (h : (addColumn m graph column).Holds item) : graph.Holds item ∨ Asked c item := by
  have hinputs := foldl_cases (Q := Asked c) (fun i hi graph item h => by
    simp only [addInput, holds_addEdge, holds_ensureNode] at h
    rcases h with ⟨rfl, -⟩ | ⟨rfl, -⟩ | rfl | hold
    · exact .inr (.derivesColumn m hm column hcolumn i hi)
    · exact .inr (.inputContains m hm column hcolumn i hi)
    · exact .inr (.inputColumn m hm column hcolumn i hi)
    · exact .inl hold) h
  rcases hinputs with h | hasked
  · simp only [holds_addEdge, holds_ensureNode] at h
    rcases h with ⟨rfl, -⟩ | rfl | hold
    · exact .inr (.contains m hm column hcolumn)
    · exact .inr (.column m hm column hcolumn)
    · exact .inl hold
  · exact .inr hasked

theorem addTest_cases (ht : t ∈ c.tests) (h : (addTest graph t).Holds item) :
    graph.Holds item ∨ Asked c item := by
  have hsources := foldl_cases (Q := Asked c) (fun s hs graph item h => by
    rcases holds_addEdge.1 h with ⟨rfl, -⟩ | hold
    · exact .inr (.testsSource t ht s hs)
    · exact .inl hold) h
  rcases hsources with h | hasked
  · have htargets := foldl_cases (Q := Asked c) (fun id hid graph item h => by
      rcases holds_addEdge.1 h with ⟨rfl, -⟩ | hold
      · exact .inr (.testsModel t ht id hid)
      · exact .inl hold) h
    rcases htargets with h | hasked
    · rcases holds_ensureNode.1 h with rfl | hold
      · exact .inr (.test t ht)
      · exact .inl hold
    · exact .inr hasked
  · exact .inr hasked

/-! ## The passes of a build -/

def afterModels (c : CompiledLineage) : LineageGraph :=
  c.models.foldl addModel empty

def afterSources (c : CompiledLineage) : LineageGraph :=
  c.sources.foldl (addSource (c.seeds.insertionSort fun a b => a.name ≤ b.name)) (afterModels c)

def afterDependencies (c : CompiledLineage) : LineageGraph :=
  c.models.foldl addDependencies (afterSources c)

def afterColumns (c : CompiledLineage) : LineageGraph :=
  c.models.foldl addColumns (afterDependencies c)

theorem build_eq (c : CompiledLineage) : build c = c.tests.foldl addTest (afterColumns c) :=
  rfl

theorem asked_of_holds (h : (build c).Holds item) : Asked c item := by
  rw [build_eq] at h
  rcases foldl_cases (Q := Asked c) (fun t ht _ _ => addTest_cases ht) h with h | h
  · rcases foldl_cases (Q := Asked c) (fun m hm _ _ => foldl_cases fun column hcolumn _ _ =>
      addColumn_cases hm hcolumn) h with h | h
    · rcases foldl_cases (Q := Asked c) (fun m hm _ _ => foldl_cases fun d hd _ _ =>
        addDependency_cases hm hd) h with h | h
      · rcases foldl_cases (Q := Asked c) (fun s hs _ _ => addSource_cases hs) h with h | h
        · exact (foldl_cases (fun m hm _ _ => addModel_cases hm) h).resolve_left not_holds_empty
        · exact h
      · exact h
    · exact h
  · exact h

theorem grows_addModel : Grows graph (graph.addModel m) :=
  (grows_ensureNode.trans grows_ensureNode).trans grows_addEdge

theorem grows_addSource : Grows graph (addSource seeds graph s) :=
  grows_ensureNode

theorem grows_addDependency : Grows graph (addDependency m graph d) := by
  cases d with
  | model id => exact (grows_addEdge.trans grows_addEdge).trans grows_addEdge
  | source s => exact grows_addEdge.trans grows_addEdge

theorem grows_addDependencies : Grows graph (addDependencies graph m) :=
  grows_foldl (fun _ _ => grows_addDependency) graph

theorem grows_addInput {target : LineageNode} {i : ColumnInput} :
    Grows graph (addInput target graph i) :=
  (grows_ensureNode.trans grows_addEdge).trans grows_addEdge

theorem grows_addColumn : Grows graph (addColumn m graph column) :=
  (grows_ensureNode.trans grows_addEdge).trans (grows_foldl (fun _ _ => grows_addInput) _)

theorem grows_addColumns : Grows graph (addColumns graph m) :=
  grows_foldl (fun _ _ => grows_addColumn) graph

theorem grows_addTest : Grows graph (addTest graph t) :=
  (grows_ensureNode.trans (grows_foldl (fun _ _ => grows_addEdge) _)).trans
    (grows_foldl (fun _ _ => grows_addEdge) _)

theorem grows_afterSources (c : CompiledLineage) : Grows (afterModels c) (afterSources c) :=
  grows_foldl (fun _ _ => grows_addSource) _

theorem grows_afterDependencies (c : CompiledLineage) :
    Grows (afterSources c) (afterDependencies c) :=
  grows_foldl (fun _ _ => grows_addDependencies) _

theorem grows_afterColumns (c : CompiledLineage) : Grows (afterDependencies c) (afterColumns c) :=
  grows_foldl (fun _ _ => grows_addColumns) _

theorem grows_build (c : CompiledLineage) : Grows (afterColumns c) (build c) :=
  grows_foldl (fun _ _ => grows_addTest) _

theorem holds_addModel :
    (graph.addModel m).Holds (.node (.model m.id)) ∧
      (graph.addModel m).Holds (.node (.dataset (.model m.id))) ∧
      (graph.addModel m).Holds (.edge (.model m.id) (.dataset (.model m.id)) (.plain .output)) := by
  simp [addModel]

theorem holds_afterModels (hm : m ∈ c.models) :
    (afterModels c).Holds (.node (.model m.id)) ∧
      (afterModels c).Holds (.node (.dataset (.model m.id))) ∧
      (afterModels c).Holds (.edge (.model m.id) (.dataset (.model m.id)) (.plain .output)) :=
  ⟨holds_foldl (fun _ _ => grows_addModel) hm fun _ _ => holds_addModel.1,
    holds_foldl (fun _ _ => grows_addModel) hm fun _ _ => holds_addModel.2.1,
    holds_foldl (fun _ _ => grows_addModel) hm fun _ _ => holds_addModel.2.2⟩

theorem holds_afterSources (hs : s ∈ c.sources) :
    (afterSources c).Holds (.node (.dataset (.source s))) :=
  holds_foldl (fun _ _ => grows_addSource) hs fun _ _ => holds_ensureNode.2 (.inl rfl)

end LineageGraph

/-! ## Resolved references -/

/-- References that the compiler resolved: models have one identity each, a model that is
read is one of them, and the sources of the tests are not datasets of models. -/
structure CompiledLineage.Resolved (c : CompiledLineage) : Prop where
  nodup : (c.models.map LineageModel.id).Nodup
  dependencies : ∀ m ∈ c.models, ∀ id, .model id ∈ m.dependencies → ∃ m' ∈ c.models, m'.id = id
  targets : ∀ t ∈ c.tests, ∀ id ∈ t.targets, ∃ m ∈ c.models, m.id = id
  sources : ∀ t ∈ c.tests, ∀ s ∈ t.sources, ∀ m ∈ c.models,
    DatasetId.source s ≠ DatasetId.model m.id

/-- Every source that a test reads is read by some model, and what is recorded as an input
of a column is read by the model of the column. -/
structure CompiledLineage.Covered (c : CompiledLineage) : Prop where
  tests : ∀ t ∈ c.tests, ∀ s ∈ t.sources, ∃ m ∈ c.models, .source s ∈ m.dependencies
  inputs : ∀ m ∈ c.models, ∀ column ∈ m.columns, ∀ i ∈ column.inputs,
    ∃ d ∈ m.dependencies, d.dataset = .relation i.relation

theorem CompiledLineage.mem_sources {c : CompiledLineage} {s : SourceId} :
    s ∈ c.sources ↔ ∃ m ∈ c.models, .source s ∈ m.dependencies := by
  simp only [sources, List.mem_insertionSort, List.mem_dedup, List.mem_flatMap,
    List.mem_filterMap]
  constructor
  · rintro ⟨m, hm, d, hd, hs⟩
    cases d with
    | model id => simp at hs
    | source s' => exact ⟨m, hm, by simpa [← Option.some.inj hs] using hd⟩
  · rintro ⟨m, hm, hd⟩
    exact ⟨m, hm, _, hd, rfl⟩

namespace LineageGraph

variable {c : CompiledLineage}
variable {m : LineageModel}
variable {d : Dependency} {column : OutputColumn}

theorem holds_dataset (hc : c.Resolved) (hm : m ∈ c.models) (hd : d ∈ m.dependencies) :
    (afterSources c).Holds (.node (.dataset d.dataset)) := by
  cases d with
  | model id =>
    obtain ⟨m', hm', rfl⟩ := hc.dependencies m hm id hd
    exact grows_afterSources c _ (holds_afterModels hm').2.1
  | source s => exact holds_afterSources (CompiledLineage.mem_sources.2 ⟨m, hm, hd⟩)

theorem holds_afterDependencies (hc : c.Resolved) (hm : m ∈ c.models) (hd : d ∈ m.dependencies) :
    (afterDependencies c).Holds (.edge (.dataset d.dataset) (.model m.id) (.plain .input)) ∧
      (afterDependencies c).Holds
        (.edge (.dataset d.dataset) (.dataset (.model m.id)) (.plain .derives)) ∧
      ∀ id, d = .model id →
        (afterDependencies c).Holds (.edge (.model id) (.model m.id) (.plain .derives)) := by
  have hmodel := grows_afterSources c _ (holds_afterModels hm).1
  have houtput := grows_afterSources c _ (holds_afterModels hm).2.1
  have hdataset := holds_dataset hc hm hd
  have hturn : ∀ item, (∀ later, Grows (afterSources c) later →
      (addDependency m later d).Holds item) → (afterDependencies c).Holds item := by
    intro item hitem
    refine holds_foldl (fun _ _ => grows_addDependencies) hm fun later hlater => ?_
    exact holds_foldl (fun _ _ => grows_addDependency) hd fun last hlast =>
      hitem last (hlater.trans hlast)
  refine ⟨hturn _ fun later hlater => ?_, hturn _ fun later hlater => ?_, ?_⟩
  · have hends := And.intro (hlater _ hdataset) (hlater _ hmodel)
    cases d with
    | model id => simpa [addDependency, Dependency.dataset] using .inl hends
    | source s => simpa [addDependency, Dependency.dataset] using .inl hends
  · have hends := And.intro (hlater _ hdataset) (hlater _ houtput)
    cases d with
    | model id => simpa [addDependency, Dependency.dataset] using .inl hends
    | source s => simpa [addDependency, Dependency.dataset] using .inl hends
  · rintro id rfl
    obtain ⟨m', hm', rfl⟩ := hc.dependencies m hm id hd
    have hread := grows_afterSources c _ (holds_afterModels hm').1
    refine hturn _ fun later hlater => ?_
    have hends := And.intro (hlater _ hread) (hlater _ hmodel)
    simpa [addDependency] using .inl hends

theorem holds_afterColumns (hm : m ∈ c.models) (hcolumn : column ∈ m.columns) :
    (afterColumns c).Holds (.node (m.columnNode column)) ∧
      (afterColumns c).Holds
        (.edge (.dataset (.model m.id)) (m.columnNode column) (.plain .contains)) := by
  have houtput := grows_afterDependencies c _ (grows_afterSources c _ (holds_afterModels hm).2.1)
  have hturn : ∀ item, (∀ later, Grows (afterDependencies c) later →
      (addColumn m later column).Holds item) → (afterColumns c).Holds item := by
    intro item hitem
    refine holds_foldl (fun _ _ => grows_addColumns) hm fun later hlater => ?_
    exact holds_foldl (fun _ _ => grows_addColumn) hcolumn fun last hlast =>
      hitem last (hlater.trans hlast)
  refine ⟨hturn _ fun later hlater => ?_, hturn _ fun later hlater => ?_⟩
  · exact grows_foldl (fun _ _ => grows_addInput) _ _
      (grows_addEdge _ (holds_ensureNode.2 (.inl rfl)))
  · refine grows_foldl (fun _ _ => grows_addInput) _ _ (holds_addEdge.2 (.inl ⟨rfl, ?_, ?_⟩))
    · exact holds_ensureNode.2 (.inr (hlater _ houtput))
    · exact holds_ensureNode.2 (.inl rfl)

/-- A recorded input has its node and its edge; its dataset contains it when the dataset
has a node. -/
theorem holds_input (hm : m ∈ c.models) (hcolumn : column ∈ m.columns) {i : ColumnInput}
    (hi : i ∈ column.inputs) :
    (afterColumns c).Holds (.node i.node) ∧
      (afterColumns c).Holds (.edge i.node (m.columnNode column) (.fromInput i)) ∧
      ((afterDependencies c).Holds (.node (.dataset (.relation i.relation))) →
        (afterColumns c).Holds
          (.edge (.dataset (.relation i.relation)) i.node (.plain .contains))) := by
  have hturn : ∀ item, (∀ later, Grows (afterDependencies c) later →
      later.Holds (.node (m.columnNode column)) →
      (addInput (m.columnNode column) later i).Holds item) → (afterColumns c).Holds item := by
    intro item hitem
    refine holds_foldl (fun _ _ => grows_addColumns) hm fun later hlater => ?_
    refine holds_foldl (fun _ _ => grows_addColumn) hcolumn fun last hlast => ?_
    refine holds_foldl (fun _ _ => grows_addInput) hi fun final hfinal => ?_
    refine hitem final (((hlater.trans hlast).trans grows_ensureNode).trans
      (grows_addEdge.trans hfinal)) (hfinal _ (grows_addEdge _ (holds_ensureNode.2 (.inl rfl))))
  refine ⟨hturn _ fun later _ _ => ?_, hturn _ fun later _ htarget => ?_,
    fun hdataset => hturn _ fun later hlater _ => ?_⟩
  · exact grows_addEdge _ (grows_addEdge _ (holds_ensureNode.2 (.inl rfl)))
  · refine holds_addEdge.2 (.inl ⟨rfl, ?_, ?_⟩)
    · exact grows_addEdge _ (holds_ensureNode.2 (.inl rfl))
    · exact grows_addEdge _ (holds_ensureNode.2 (.inr htarget))
  · refine grows_addEdge _ (holds_addEdge.2 (.inl ⟨rfl, ?_, ?_⟩))
    · exact holds_ensureNode.2 (.inr (hlater _ hdataset))
    · exact holds_ensureNode.2 (.inl rfl)

theorem holds_test {t : LineageTest} (ht : t ∈ c.tests) :
    (build c).Holds (.node (.test t.id)) ∧
      (∀ id ∈ t.targets, (afterColumns c).Holds (.node (.dataset (.model id))) →
        (build c).Holds (.edge (.dataset (.model id)) (.test t.id) (.plain .tests))) ∧
      ∀ s ∈ t.sources, (afterColumns c).Holds (.node (.dataset (.source s))) →
        (build c).Holds (.edge (.dataset (.source s)) (.test t.id) (.plain .tests)) := by
  have hturn : ∀ item, (∀ later, Grows (afterColumns c) later →
      (addTest later t).Holds item) → (build c).Holds item := fun item hitem =>
    holds_foldl (fun _ _ => grows_addTest) ht hitem
  refine ⟨hturn _ fun later _ => ?_, fun id hid hdataset => hturn _ fun later hlater => ?_,
    fun s hs hdataset => hturn _ fun later hlater => ?_⟩
  · exact grows_foldl (fun _ _ => grows_addEdge) _ _
      (grows_foldl (fun _ _ => grows_addEdge) _ _ (holds_ensureNode.2 (.inl rfl)))
  · refine grows_foldl (fun _ _ => grows_addEdge) _ _ ?_
    refine holds_foldl (fun _ _ => grows_addEdge) hid fun last hlast => ?_
    refine holds_addEdge.2 (.inl ⟨rfl, hlast _ ?_, hlast _ (holds_ensureNode.2 (.inl rfl))⟩)
    exact holds_ensureNode.2 (.inr (hlater _ hdataset))
  · refine holds_foldl (fun _ _ => grows_addEdge) hs fun last hlast => ?_
    have hgrown := (grows_foldl (fun _ _ => grows_addEdge) _).trans hlast
    refine holds_addEdge.2 (.inl ⟨rfl, hgrown _ ?_, hgrown _ (holds_ensureNode.2 (.inl rfl))⟩)
    exact holds_ensureNode.2 (.inr (hlater _ hdataset))

/-- Where the references are covered, nothing that a pass asks for is lost. -/
theorem holds_of_asked (hc : c.Resolved) (hcovered : c.Covered) {item : LineageItem}
    (h : Asked c item) : (build c).Holds item := by
  have hmodels : Grows (afterModels c) (afterColumns c) :=
    ((grows_afterSources c).trans (grows_afterDependencies c)).trans (grows_afterColumns c)
  have hsources : Grows (afterSources c) (afterColumns c) :=
    (grows_afterDependencies c).trans (grows_afterColumns c)
  cases h with
  | model m hm => exact grows_build c _ (hmodels _ (holds_afterModels hm).1)
  | output m hm => exact grows_build c _ (hmodels _ (holds_afterModels hm).2.1)
  | produces m hm => exact grows_build c _ (hmodels _ (holds_afterModels hm).2.2)
  | source s hs => exact grows_build c _ (hsources _ (holds_afterSources hs))
  | input m hm d hd =>
    exact grows_build c _ (grows_afterColumns c _ (holds_afterDependencies hc hm hd).1)
  | derivesModel m hm id hd =>
    exact grows_build c _
      (grows_afterColumns c _ ((holds_afterDependencies hc hm hd).2.2 id rfl))
  | derivesDataset m hm d hd =>
    exact grows_build c _ (grows_afterColumns c _ (holds_afterDependencies hc hm hd).2.1)
  | column m hm column hcolumn => exact grows_build c _ (holds_afterColumns hm hcolumn).1
  | contains m hm column hcolumn => exact grows_build c _ (holds_afterColumns hm hcolumn).2
  | inputColumn m hm column hcolumn i hi => exact grows_build c _ (holds_input hm hcolumn hi).1
  | inputContains m hm column hcolumn i hi =>
    obtain ⟨d, hd, hdataset⟩ := hcovered.inputs m hm column hcolumn i hi
    have hknown := grows_afterDependencies c _ (holds_dataset hc hm hd)
    rw [hdataset] at hknown
    exact grows_build c _ ((holds_input hm hcolumn hi).2.2 hknown)
  | derivesColumn m hm column hcolumn i hi =>
    exact grows_build c _ (holds_input hm hcolumn hi).2.1
  | test t ht => exact (holds_test ht).1
  | testsModel t ht id hid =>
    obtain ⟨m, hm, rfl⟩ := hc.targets t ht id hid
    exact (holds_test ht).2.1 m.id hid (hmodels _ (holds_afterModels hm).2.1)
  | testsSource t ht s hs =>
    have hread := CompiledLineage.mem_sources.2 (hcovered.tests t ht s hs)
    exact (holds_test ht).2.2 s hs (hsources _ (holds_afterSources hread))

end LineageGraph

/-! ## Who draws on a dataset -/

/-- Who reads a dataset, and what is made from it. -/
def CompiledLineage.Reads (c : CompiledLineage) (x : DatasetId) : LineageNode → Prop
  | .model id => ∃ m ∈ c.models, m.id = id ∧ ∃ d ∈ m.dependencies, d.dataset = x
  | .dataset y => ∃ m ∈ c.models, y = .model m.id ∧ ∃ d ∈ m.dependencies, d.dataset = x
  | .test id => ∃ t ∈ c.tests, t.id = id ∧
      ((∃ target ∈ t.targets, DatasetId.model target = x) ∨
        ∃ s ∈ t.sources, DatasetId.source s = x)
  | .column _ => False

/-- The node reads the dataset, or one that is made from it by any number of models. -/
def CompiledLineage.Draws (c : CompiledLineage) (x : DatasetId) (node : LineageNode) : Prop :=
  ∃ y, Relation.ReflTransGen (fun x y => c.Reads x (.dataset y)) x y ∧ c.Reads y node

def LineageNode.isColumn : LineageNode → Bool
  | .column _ => true
  | .model _ | .dataset _ | .test _ => false

namespace LineageGraph

variable {c : CompiledLineage} {x : DatasetId} {node next : LineageNode}

theorem reads_of_feeds (h : (build c).Feeds (.dataset x) node) :
    node.isColumn = true ∨ c.Reads x node := by
  obtain ⟨edge, hedge⟩ := h
  have hasked : Asked c (.edge (.dataset x) node edge) := asked_of_holds hedge
  cases hasked with
  | input m hm d hd => exact .inr ⟨m, hm, rfl, d, hd, rfl⟩
  | derivesDataset m hm d hd => exact .inr ⟨m, hm, rfl, d, hd, rfl⟩
  | contains => exact .inl rfl
  | inputContains => exact .inl rfl
  | testsModel t ht id hid => exact .inr ⟨t, ht, rfl, .inl ⟨id, hid, rfl⟩⟩
  | testsSource t ht s hs => exact .inr ⟨t, ht, rfl, .inr ⟨s, hs, rfl⟩⟩

/-- What is fed by a node that draws on a dataset draws on it too. -/
theorem draws_of_feeds (hnode : node.isColumn = true ∨ c.Draws x node)
    (h : (build c).Feeds node next) : next.isColumn = true ∨ c.Draws x next := by
  cases node with
  | column column =>
    obtain ⟨edge, hedge⟩ := h
    have hasked : Asked c (.edge (.column column) next edge) := asked_of_holds hedge
    cases hasked with
    | derivesColumn => exact .inl rfl
  | dataset y =>
    obtain ⟨z, hz, hreads⟩ := hnode.resolve_left (by simp [LineageNode.isColumn])
    exact (reads_of_feeds h).imp id fun hnext => ⟨y, hz.tail hreads, hnext⟩
  | model id =>
    obtain ⟨z, hz, m, hm, rfl, hreads⟩ := hnode.resolve_left (by simp [LineageNode.isColumn])
    -- the model's output is made from what the model reads
    have hmade : Relation.ReflTransGen (fun x y => c.Reads x (.dataset y)) x (.model m.id) :=
      hz.tail ⟨m, hm, rfl, hreads⟩
    obtain ⟨edge, hedge⟩ := h
    have hasked : Asked c (.edge (.model m.id) next edge) := asked_of_holds hedge
    generalize hid : m.id = id at hasked
    cases hasked with
    | produces m' hm' => exact .inr ⟨z, hz, m, hm, by rw [hid], hreads⟩
    | derivesModel m' hm' _ hd =>
      refine .inr ⟨.model m.id, hmade, m', hm', rfl, _, hd, ?_⟩
      rw [hid]
      rfl
  | test id =>
    obtain ⟨edge, hedge⟩ := h
    have hasked : Asked c (.edge (.test id) next edge) := asked_of_holds hedge
    cases hasked

theorem draws_of_reaches (h : Relation.TransGen (build c).Feeds (.dataset x) node) :
    node.isColumn = true ∨ c.Draws x node := by
  induction h with
  | single hfeeds => exact (reads_of_feeds hfeeds).imp id fun hreads => ⟨x, .refl, hreads⟩
  | tail _ hfeeds ih => exact draws_of_feeds ih hfeeds

theorem feeds_of_reads (hc : c.Resolved) (hcovered : c.Covered) (h : c.Reads x node) :
    (build c).Feeds (.dataset x) node := by
  cases node with
  | model id =>
    obtain ⟨m, hm, rfl, d, hd, rfl⟩ := h
    exact ⟨_, holds_of_asked hc hcovered (.input m hm d hd)⟩
  | dataset y =>
    obtain ⟨m, hm, rfl, d, hd, rfl⟩ := h
    exact ⟨_, holds_of_asked hc hcovered (.derivesDataset m hm d hd)⟩
  | test id =>
    obtain ⟨t, ht, rfl, ⟨target, htarget, rfl⟩ | ⟨s, hs, rfl⟩⟩ := h
    · exact ⟨_, holds_of_asked hc hcovered (.testsModel t ht target htarget)⟩
    · exact ⟨_, holds_of_asked hc hcovered (.testsSource t ht s hs)⟩
  | column _ => exact h.elim

/-- In a graph that lost nothing, what is downstream of a dataset is what draws on it. -/
theorem mem_downstream_iff_draws (hc : c.Resolved) (hcovered : c.Covered)
    (hnode : node.isColumn = false) :
    node ∈ (build c).downstreamTransitive (.dataset x) ↔ c.Draws x node := by
  rw [mem_downstreamTransitive_iff]
  constructor
  · exact fun h => (draws_of_reaches h).resolve_left (by simp [hnode])
  · rintro ⟨y, hy, hreads⟩
    have hreaches : Relation.ReflTransGen (build c).Feeds (.dataset x) (.dataset y) :=
      hy.lift LineageNode.dataset fun _ _ h => feeds_of_reads hc hcovered h
    exact Relation.TransGen.tail' hreaches (feeds_of_reads hc hcovered hreads)

end LineageGraph

/-! ## Completeness -/

/-- The graph of a compilation shows every read and every derivation. -/
structure LineageComplete (c : CompiledLineage) : Prop where
  inputs : ∀ m ∈ c.models, ∀ d ∈ m.dependencies,
    (LineageGraph.build c).Holds (.edge (.dataset d.dataset) (.model m.id) (.plain .input))
  tests : ∀ t ∈ c.tests,
    (∀ id ∈ t.targets,
      (LineageGraph.build c).Holds (.edge (.dataset (.model id)) (.test t.id) (.plain .tests))) ∧
    ∀ s ∈ t.sources,
      (LineageGraph.build c).Holds (.edge (.dataset (.source s)) (.test t.id) (.plain .tests))
  /-- A derivation with all that was recorded of it, from a column of a dataset that the
  model reads. -/
  columns : ∀ m ∈ c.models, ∀ column ∈ m.columns, ∀ i ∈ column.inputs,
    (LineageGraph.build c).Holds (.edge i.node (m.columnNode column) (.fromInput i)) ∧
      (LineageGraph.build c).Holds
        (.edge (.dataset (.relation i.relation)) i.node (.plain .contains)) ∧
      (LineageGraph.build c).Holds
        (.edge (.dataset (.relation i.relation)) (.model m.id) (.plain .input))
  kept : ∀ item, Asked c item → (LineageGraph.build c).Holds item
  downstream : ∀ x node, node.isColumn = false →
    (node ∈ (LineageGraph.build c).downstreamTransitive (.dataset x) ↔ c.Draws x node)

open LineageGraph

theorem SourceId.eq_of_dataset {s s' : SourceId}
    (h : DatasetId.source s = DatasetId.source s') : s = s' := by
  obtain ⟨parts, _⟩ := s
  obtain ⟨parts', _⟩ := s'
  obtain rfl : parts = parts' := congrArg DatasetId.parts h
  rfl

/-- Where the references are resolved, the graph is complete exactly when tests and
recorded inputs name nothing but what the models read. -/
theorem complete_iff_covered {c : CompiledLineage} (hc : c.Resolved) :
    LineageComplete c ↔ c.Covered := by
  constructor
  · intro h
    constructor
    · intro t ht s hs
      have hnode := ((h.tests t ht).2 s hs).endpoints.1
      have hasked : Asked c (.node (.dataset (.source s))) := asked_of_holds hnode
      generalize hx : DatasetId.source s = x at hasked
      cases hasked with
      | output m hm => exact absurd hx (hc.sources t ht s hs m hm)
      | source s' hs' =>
        obtain rfl := SourceId.eq_of_dataset hx
        exact CompiledLineage.mem_sources.1 hs'
    · intro m hm column hcolumn i hi
      have hasked := asked_of_holds (h.columns m hm column hcolumn i hi).2.2
      generalize hx : DatasetId.relation i.relation = x at hasked
      generalize hid : m.id = id at hasked
      cases hasked with
      | input m' hm' d hd =>
        obtain rfl := List.inj_on_of_nodup_map hc.nodup hm hm' hid
        exact ⟨d, hd, rfl⟩
  · intro hcovered
    refine ⟨?_, ?_, ?_, fun item h => holds_of_asked hc hcovered h,
      fun x node hnode => mem_downstream_iff_draws hc hcovered hnode⟩
    · exact fun m hm d hd => holds_of_asked hc hcovered (.input m hm d hd)
    · exact fun t ht => ⟨fun id hid => holds_of_asked hc hcovered (.testsModel t ht id hid),
        fun s hs => holds_of_asked hc hcovered (.testsSource t ht s hs)⟩
    · intro m hm column hcolumn i hi
      refine ⟨holds_of_asked hc hcovered (.derivesColumn m hm column hcolumn i hi),
        holds_of_asked hc hcovered (.inputContains m hm column hcolumn i hi), ?_⟩
      obtain ⟨d, hd, hdataset⟩ := hcovered.inputs m hm column hcolumn i hi
      rw [← hdataset]
      exact holds_of_asked hc hcovered (.input m hm d hd)

end PhloTransform.Core
