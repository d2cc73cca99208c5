import PhloTransform.Core.LineageCompleteness

/-!
# The kind of a source's dataset

Only the pass over the sources says what the dataset of a source is, and every pass after it
leaves that alone.

Main results:

- Theorem `kindOf_ensureNode`: what a node's kind is after a node has been ensured.
- Theorem `kindOf_build`: a source's dataset is a seed exactly when a seed matches the source
  by name.
-/

namespace PhloTransform.Core
namespace LineageGraph

variable {nodes : List (LineageNode × NodeMeta)} {node : LineageNode}

/-! ## Looking a node up -/

def metaOf (nodes : List (LineageNode × NodeMeta)) (node : LineageNode) : Option NodeMeta :=
  (nodes.find? fun row => decide (row.1 = node)).map Prod.snd

theorem metaOf_cons (row : LineageNode × NodeMeta) (nodes : List (LineageNode × NodeMeta))
    (node : LineageNode) :
    metaOf (row :: nodes) node = if row.1 = node then some row.2 else metaOf nodes node := by
  unfold metaOf
  rw [List.find?_cons]
  by_cases h : row.1 = node <;> simp [h]

theorem metaOf_eq_none (h : node ∉ nodes.map Prod.fst) : metaOf nodes node = none := by
  unfold metaOf
  rw [Option.map_eq_none_iff, List.find?_eq_none]
  intro row hrow heq
  rw [decide_eq_true_eq] at heq
  exact h (heq ▸ List.mem_map_of_mem hrow)

/-- A node that is inserted adds its metadata to what is known of it. -/
theorem metaOf_insertNode (h : (nodes.map Prod.fst).Pairwise (· < ·)) (node other : LineageNode)
    (data : NodeMeta) :
    metaOf (insertNode node data nodes) other =
      if node = other then some (((metaOf nodes other).map fun m => m.merge data).getD data)
      else metaOf nodes other := by
  induction nodes with
  | nil =>
    rw [insertNode, metaOf_cons]
    rfl
  | cons row rest ih =>
    obtain ⟨n, m⟩ := row
    rw [List.map_cons, List.pairwise_cons] at h
    rw [insertNode]
    by_cases hlt : node < n
    · rw [if_pos hlt, metaOf_cons]
      by_cases hsame : node = other
      · subst hsame
        have habsent : node ∉ ((n, m) :: rest).map Prod.fst := by
          rw [List.map_cons, List.mem_cons]
          rintro (rfl | hmem)
          · exact lt_irrefl _ hlt
          · exact lt_asymm hlt (h.1 node hmem)
        rw [if_pos rfl, if_pos rfl, metaOf_eq_none habsent]
        rfl
      · rw [if_neg hsame, if_neg hsame]
    · rw [if_neg hlt]
      by_cases heq : node = n
      · subst heq
        by_cases hsame : node = other
        · subst hsame
          simp [metaOf_cons]
        · simp [metaOf_cons, hsame]
      · rw [if_neg heq, metaOf_cons, metaOf_cons, ih h.2]
        by_cases hsame : node = other
        · subst hsame
          rw [if_neg (Ne.symm heq), if_neg (Ne.symm heq), if_pos rfl]
        · rw [if_neg hsame, if_neg hsame]

/-- What the graph says a node's dataset is. -/
def kindOf (graph : LineageGraph) (node : LineageNode) : Option DatasetKind :=
  (metaOf graph.nodes node).bind NodeMeta.datasetKind

@[simp]
theorem kindOf_empty (node : LineageNode) : kindOf empty node = none :=
  rfl

theorem kindOf_ensureNode (graph : LineageGraph) (node other : LineageNode) (data : NodeMeta) :
    (graph.ensureNode node data).kindOf other =
      if node = other then data.datasetKind.or (graph.kindOf other) else graph.kindOf other := by
  unfold kindOf ensureNode
  rw [metaOf_insertNode graph.nodes_sorted]
  split_ifs with h
  · cases metaOf graph.nodes other with
    | none => simp
    | some m => rfl
  · rfl

@[simp]
theorem kindOf_addEdge (graph : LineageGraph) (origin target other : LineageNode)
    (edge : LineageEdge) : (graph.addEdge origin target edge).kindOf other = graph.kindOf other := by
  unfold addEdge
  split <;> rfl

/-- A pass that leaves a kind alone at each step leaves it alone. -/
theorem kindOf_foldl {α : Type} {step : LineageGraph → α → LineageGraph} (xs : List α)
    (h : ∀ graph, ∀ x ∈ xs, (step graph x).kindOf node = graph.kindOf node) (graph : LineageGraph) :
    (xs.foldl step graph).kindOf node = graph.kindOf node := by
  induction xs generalizing graph with
  | nil => rfl
  | cons x xs ih =>
    rw [List.foldl_cons, ih (fun graph y hy => h graph y (List.mem_cons_of_mem x hy))]
    exact h graph x List.mem_cons_self

/-! ## The passes of a build -/

variable {source : SourceId}

theorem kindOf_addDependencies (graph : LineageGraph) (m : LineageModel) (node : LineageNode) :
    (addDependencies graph m).kindOf node = graph.kindOf node := by
  apply kindOf_foldl
  intro graph dependency _
  cases dependency with
  | model id => simp [addDependency]
  | source id => simp [addDependency]

theorem kindOf_addColumns (graph : LineageGraph) (m : LineageModel) (id : DatasetId) :
    (addColumns graph m).kindOf (.dataset id) = graph.kindOf (.dataset id) := by
  apply kindOf_foldl
  intro graph column _
  have hinputs : ∀ graph : LineageGraph, (column.inputs.foldl
      (addInput (.column { dataset := .model m.id, name := column.name })) graph).kindOf
        (.dataset id) = graph.kindOf (.dataset id) := by
    apply kindOf_foldl
    intro graph input _
    simp [addInput, kindOf_ensureNode]
  rw [addColumn, hinputs]
  simp [kindOf_ensureNode]

theorem kindOf_addTest (graph : LineageGraph) (test : LineageTest) (id : DatasetId) :
    (addTest graph test).kindOf (.dataset id) = graph.kindOf (.dataset id) := by
  unfold addTest
  rw [kindOf_foldl _ (fun graph source _ => kindOf_addEdge graph _ _ _ _),
    kindOf_foldl _ (fun graph target _ => kindOf_addEdge graph _ _ _ _)]
  simp [kindOf_ensureNode]

/-- What the pass over the sources calls the dataset of a source. -/
def sourceKind (seeds : List LineageSeed) (source : SourceId) : DatasetKind :=
  match seeds.find? fun seed => seedMatches source seed with
  | some _ => .seed
  | none => .source

theorem kindOf_addSource (seeds : List LineageSeed) (graph : LineageGraph) (other : SourceId) :
    (addSource seeds graph other).kindOf (.dataset (.source source)) =
      if other = source then some (sourceKind seeds source)
      else graph.kindOf (.dataset (.source source)) := by
  rw [addSource, kindOf_ensureNode]
  by_cases h : other = source
  · subst h
    rw [if_pos rfl, if_pos rfl, sourceKind]
    cases seeds.find? fun seed => seedMatches other seed <;> rfl
  · rw [if_neg h, if_neg]
    intro heq
    exact h (SourceId.eq_of_dataset (LineageNode.dataset.inj heq))

theorem kindOf_foldl_addSource (seeds : List LineageSeed) (sources : List SourceId)
    (graph : LineageGraph) :
    (sources.foldl (addSource seeds) graph).kindOf (.dataset (.source source)) =
      if source ∈ sources then some (sourceKind seeds source)
      else graph.kindOf (.dataset (.source source)) := by
  induction sources generalizing graph with
  | nil => simp
  | cons other sources ih =>
    rw [List.foldl_cons, ih, kindOf_addSource]
    by_cases hmem : source ∈ sources
    · simp [hmem]
    · by_cases hother : other = source
      · simp [hother]
      · simp [hmem, hother, Ne.symm hother]

/-- The seeds in the order in which the build looks through them. -/
def sortedSeeds (seeds : List LineageSeed) : List LineageSeed :=
  seeds.insertionSort fun a b => a.name ≤ b.name

/-- The dataset of a source is what the pass over the sources calls it. -/
theorem kindOf_build {c : CompiledLineage} (hsource : source ∈ c.sources) :
    (build c).kindOf (.dataset (.source source)) =
      some (sourceKind (sortedSeeds c.seeds) source) := by
  rw [build_eq, kindOf_foldl _ (fun graph test _ => kindOf_addTest graph test _), afterColumns,
    kindOf_foldl _ (fun graph m _ => kindOf_addColumns graph m _), afterDependencies,
    kindOf_foldl _ (fun graph m _ => kindOf_addDependencies graph m _), afterSources,
    kindOf_foldl_addSource, if_pos hsource]
  rfl

end LineageGraph

end PhloTransform.Core
