import PhloTransform.Core.LineageCompleteness

/-!
# What a removed node orphans

A removed node is reported with the names of what the base graph has downstream of it.  The
walk goes over every kind of edge, so it comes to the node's own dataset, to the columns that
this dataset contains, and to the columns of the consumers.

Main results:

- Theorem `mem_nodeImpacts_iff`: the impacts that are reported under a URI.
- Theorem `orphansExact_iff`: the removed nodes whose orphans are the other consumers.
-/

namespace PhloTransform.Core

/-! ## Consumers -/

namespace LineageNode

/-- The dataset that a node stands for: a model's output, or the dataset itself. -/
def ownDataset : LineageNode → Option DatasetId
  | model id => some (.model id)
  | dataset id => some id
  | column _ => none
  | test _ => none

theorem label_output (id : ModelId) : (dataset (.model id)).label = (model id).label := by
  have hname : ".".intercalate (id.ns :: id.path) = id.ns ++ "." ++ ".".intercalate id.path :=
    String.intercalate_cons_of_ne_nil id.path_ne_nil
  exact hname

/-- The node is the other one, or its output dataset. -/
def IsPartOf (other node : LineageNode) : Prop :=
  other = node ∨ ∃ id, node.ownDataset = some id ∧ other = .dataset id

end LineageNode

namespace LineageGraph

variable (graph : LineageGraph)

/-- A model, a dataset or a test downstream of a node that is not a part of it. -/
structure Consumes (node other : LineageNode) : Prop where
  reached : Relation.TransGen graph.Feeds node other
  kind : other.isColumn = false
  other : ¬ other.IsPartOf node

def OwnColumn (node : LineageNode) (column : DatasetColumn) : Prop :=
  .column column ∈ graph.nodes.map Prod.fst ∧ node.ownDataset = some column.dataset

variable {graph}

theorem exists_nodeKey {node : LineageNode} (h : node ∈ graph.nodes.map Prod.fst) :
    ∃ key, graph.nodeKey node.uri = some key := by
  cases hkey : graph.nodeKey node.uri with
  | some key => exact ⟨key, rfl⟩
  | none =>
    rw [nodeKey, List.find?_eq_none] at hkey
    exact absurd (decide_eq_true rfl) (hkey node h)

theorem nodup_eraseDups (names : List String) : names.eraseDups.Nodup := by
  induction hlength : names.length using Nat.strong_induction_on generalizing names with
  | _ n ih =>
    cases names with
    | nil => simp
    | cons name names =>
      rw [List.eraseDups_cons, List.nodup_cons]
      constructor
      · rw [List.mem_eraseDups, List.mem_filter]
        simp
      · have hle := List.length_filter_le (fun b => !b == name) names
        rw [List.length_cons] at hlength
        exact ih _ (by omega) _ rfl

theorem consumers_nodup (node : LineageNode) : (graph.consumers node).Nodup :=
  nodup_eraseDups _

theorem mem_consumers_iff {node : LineageNode} {name : String} :
    name ∈ graph.consumers node ↔
      ∃ other, Relation.TransGen graph.Feeds node other ∧ other.label = name := by
  rw [consumers, List.mem_eraseDups, List.mem_map]
  simp only [mem_downstreamTransitive_iff]

end LineageGraph

/-! ## The reported impacts -/

section Impacts

variable {base candidate : LineageGraph}

theorem mem_nodesRemoved_iff {row : DiffNode} :
    row ∈ (lineageDiff base candidate).nodesRemoved ↔
      ∃ node ∈ base.nodes.map Prod.fst, node ∉ candidate.nodes.map Prod.fst ∧
        node.diffNode = row := by
  have hnone : ∀ node, (candidate.metaTable.get? node).isNone = true ↔
      node ∉ candidate.nodes.map Prod.fst := by
    intro node
    rw [Option.isNone_iff_eq_none, get?_metaTable_eq_none]
  simp only [lineageDiff, List.mem_map, List.mem_filter, hnone]
  constructor
  · rintro ⟨row, ⟨hmem, hgone⟩, rfl⟩
    exact ⟨row.1, ⟨row, hmem, rfl⟩, by simpa using hgone, rfl⟩
  · rintro ⟨node, ⟨row, hmem, rfl⟩, hgone, rfl⟩
    exact ⟨row, ⟨hmem, by simpa using hgone⟩, rfl⟩

/-- The impacts under a removed node's URI: the consumers of the first node of that URI, when
there are any. -/
theorem mem_nodeImpacts_iff {node key : LineageNode} {impact : LineageDiffImpact}
    (hbase : node ∈ base.nodes.map Prod.fst) (hgone : node ∉ candidate.nodes.map Prod.fst)
    (hkey : base.nodeKey node.uri = some key) :
    (impact ∈ nodeImpacts base (lineageDiff base candidate) ∧ impact.node = node.uri) ↔
      base.consumers key ≠ [] ∧ impact = { node := node.uri, orphans := base.consumers key } := by
  rw [nodeImpacts, List.mem_filterMap]
  constructor
  · rintro ⟨⟨row, hrow, himpact⟩, huri⟩
    obtain ⟨removed, -, -, rfl⟩ := mem_nodesRemoved_iff.1 hrow
    have hrowUri : removed.diffNode.uri = removed.uri := rfl
    rw [hrowUri] at himpact
    split at himpact
    · cases himpact
    · next found hfound =>
        simp only at himpact
        split at himpact
        · cases himpact
        · next hempty =>
            cases himpact
            simp only at huri
            rw [huri, hkey, Option.some.injEq] at hfound
            subst hfound
            rw [List.isEmpty_iff] at hempty
            exact ⟨hempty, by rw [huri]⟩
  · rintro ⟨hempty, rfl⟩
    refine ⟨⟨node.diffNode, mem_nodesRemoved_iff.2 ⟨node, hbase, hgone, rfl⟩, ?_⟩, rfl⟩
    have hrowUri : node.diffNode.uri = node.uri := rfl
    rw [hrowUri, hkey]
    simp [hempty]

end Impacts

/-! ## Orphans and other consumers -/

section Orphans

variable (base candidate : LineageGraph) (node : LineageNode)

/-- The removed node has an impact exactly when it has another consumer, and the orphans are
the names of these, each once. -/
structure OrphansExact : Prop where
  reported : (∃ impact ∈ nodeImpacts base (lineageDiff base candidate),
    impact.node = node.uri) ↔ ∃ other, base.Consumes node other
  orphans : ∀ impact ∈ nodeImpacts base (lineageDiff base candidate), impact.node = node.uri →
    impact.orphans.Nodup ∧
      (∀ name, name ∈ impact.orphans ↔ ∃ other, base.Consumes node other ∧ other.label = name) ∧
      node.label ∉ impact.orphans ∧
      ∀ column, base.OwnColumn node column → (LineageNode.column column).label ∉ impact.orphans

/-- What is downstream goes by the names of the other consumers, and no part of the removed
node does. -/
structure ReachesConsumers (key : LineageNode) : Prop where
  consumer : ∀ other, Relation.TransGen base.Feeds key other →
    ∃ consumer, base.Consumes node consumer ∧ consumer.label = other.label
  reached : ∀ consumer, base.Consumes node consumer →
    ∃ other, Relation.TransGen base.Feeds key other ∧ other.label = consumer.label
  part : ∀ other, Relation.TransGen base.Feeds key other →
    other.label ≠ node.label ∧
      ∀ column, base.OwnColumn node column → other.label ≠ (LineageNode.column column).label

variable {base candidate node}

/-- A node that the lookup finds by its own URI reaches its consumers. -/
theorem reachesConsumers_of_all
    (hall : ∀ other, Relation.TransGen base.Feeds node other → base.Consumes node other)
    (hname : ∀ other, Relation.TransGen base.Feeds node other → other.label ≠ node.label)
    (hcolumn : ∀ other, Relation.TransGen base.Feeds node other → ∀ column,
      base.OwnColumn node column → other.label ≠ (LineageNode.column column).label) :
    ReachesConsumers base node node := by
  constructor
  · intro other hother
    exact ⟨other, hall other hother, rfl⟩
  · intro consumer hconsumer
    exact ⟨consumer, hconsumer.reached, rfl⟩
  · intro other hother
    exact ⟨hname other hother, hcolumn other hother⟩

section Found

variable {key : LineageNode} (hbase : node ∈ base.nodes.map Prod.fst)
    (hgone : node ∉ candidate.nodes.map Prod.fst) (hkey : base.nodeKey node.uri = some key)

include hbase hgone hkey

theorem impact_mem {other : LineageNode} (hother : Relation.TransGen base.Feeds key other) :
    { node := node.uri, orphans := base.consumers key } ∈
      nodeImpacts base (lineageDiff base candidate) := by
  have hne : base.consumers key ≠ [] :=
    List.ne_nil_of_mem (LineageGraph.mem_consumers_iff.2 ⟨other, hother, rfl⟩)
  exact ((mem_nodeImpacts_iff hbase hgone hkey).2 ⟨hne, rfl⟩).1

theorem reported_iff_of_nodeKey : (∃ impact ∈ nodeImpacts base (lineageDiff base candidate),
      impact.node = node.uri) ↔ ∃ other, Relation.TransGen base.Feeds key other := by
  constructor
  · rintro ⟨impact, himpact, huri⟩
    have hne := ((mem_nodeImpacts_iff hbase hgone hkey).1 ⟨himpact, huri⟩).1
    obtain ⟨name, hname⟩ := List.exists_mem_of_ne_nil _ hne
    obtain ⟨other, hother, -⟩ := LineageGraph.mem_consumers_iff.1 hname
    exact ⟨other, hother⟩
  · rintro ⟨other, hother⟩
    exact ⟨_, impact_mem hbase hgone hkey hother, rfl⟩

theorem OrphansExact.reachesConsumers (h : OrphansExact base candidate node) :
    ReachesConsumers base node key := by
  have hexact : ∀ other, Relation.TransGen base.Feeds key other → _ :=
    fun other hother => h.orphans _ (impact_mem hbase hgone hkey hother) rfl
  constructor
  · intro other hother
    exact ((hexact other hother).2.1 other.label).1
      (LineageGraph.mem_consumers_iff.2 ⟨other, hother, rfl⟩)
  · intro consumer hconsumer
    obtain ⟨other, hother⟩ :=
      (reported_iff_of_nodeKey hbase hgone hkey).1 (h.reported.2 ⟨consumer, hconsumer⟩)
    exact LineageGraph.mem_consumers_iff.1
      (((hexact other hother).2.1 _).2 ⟨consumer, hconsumer, rfl⟩)
  · intro other hother
    obtain ⟨-, -, hnode, hcolumns⟩ := hexact other hother
    have hmem := LineageGraph.mem_consumers_iff.2 ⟨other, hother, rfl⟩
    refine ⟨?_, ?_⟩
    · intro hsame
      exact hnode (hsame ▸ hmem)
    · intro column hcolumn hsame
      exact hcolumns column hcolumn (hsame ▸ hmem)

theorem ReachesConsumers.orphansExact (h : ReachesConsumers base node key) :
    OrphansExact base candidate node := by
  constructor
  · rw [reported_iff_of_nodeKey hbase hgone hkey]
    constructor
    · rintro ⟨other, hother⟩
      obtain ⟨consumer, hconsumer, -⟩ := h.consumer other hother
      exact ⟨consumer, hconsumer⟩
    · rintro ⟨consumer, hconsumer⟩
      obtain ⟨other, hother, -⟩ := h.reached consumer hconsumer
      exact ⟨other, hother⟩
  · intro impact himpact huri
    obtain ⟨-, rfl⟩ := (mem_nodeImpacts_iff hbase hgone hkey).1 ⟨himpact, huri⟩
    refine ⟨LineageGraph.consumers_nodup key, ?_, ?_, ?_⟩
    · intro name
      rw [LineageGraph.mem_consumers_iff]
      constructor
      · rintro ⟨other, hother, rfl⟩
        exact h.consumer other hother
      · rintro ⟨consumer, hconsumer, rfl⟩
        exact h.reached consumer hconsumer
    · intro hmem
      obtain ⟨other, hother, hsame⟩ := LineageGraph.mem_consumers_iff.1 hmem
      exact (h.part other hother).1 hsame
    · intro column hcolumn hmem
      obtain ⟨other, hother, hsame⟩ := LineageGraph.mem_consumers_iff.1 hmem
      exact (h.part other hother).2 column hcolumn hsame

theorem orphansExact_iff_of_nodeKey :
    OrphansExact base candidate node ↔ ReachesConsumers base node key :=
  ⟨OrphansExact.reachesConsumers hbase hgone hkey, ReachesConsumers.orphansExact hbase hgone hkey⟩

end Found

/-- The orphans of a removed node are the other consumers exactly when everything downstream
goes by the name of one of them, and nothing downstream by the name of the node or of its
columns. -/
theorem orphansExact_iff (hbase : node ∈ base.nodes.map Prod.fst)
    (hgone : node ∉ candidate.nodes.map Prod.fst) :
    OrphansExact base candidate node ↔
      ∀ key, base.nodeKey node.uri = some key → ReachesConsumers base node key := by
  obtain ⟨key, hkey⟩ := LineageGraph.exists_nodeKey hbase
  rw [orphansExact_iff_of_nodeKey hbase hgone hkey, hkey]
  simp

/-- A removed model is among its own orphans: it feeds its output dataset, which has its
name. -/
theorem not_orphansExact_of_feeds_output {id : ModelId}
    (hbase : .model id ∈ base.nodes.map Prod.fst) (hgone : .model id ∉ candidate.nodes.map Prod.fst)
    (hkey : base.nodeKey (LineageNode.model id).uri = some (.model id))
    (houtput : base.Feeds (.model id) (.dataset (.model id))) :
    ¬ OrphansExact base candidate (.model id) := by
  rw [orphansExact_iff_of_nodeKey hbase hgone hkey]
  intro h
  exact (h.part _ (.single houtput)).1 (LineageNode.label_output id)

end Orphans

/-! ## A removed source and a removed model -/

namespace Sample

def pickNothing : LineageGraph :=
  .build { pick [dottedSource] dottedSource with
    models := (pick [dottedSource] dottedSource).models.map fun model =>
      { model with columns := [] } }

end Sample

/-- The orphan of the source is the model that reads it. -/
theorem orphansExact_pickNothing :
    OrphansExact Sample.pickNothing .empty (.dataset (.source Sample.dottedSource)) := by
  have hbase : .dataset (.source Sample.dottedSource) ∈ Sample.pickNothing.nodes.map Prod.fst := by
    decide +kernel
  rw [orphansExact_iff hbase (by simp [LineageGraph.empty])]
  intro key hkey
  have hfound : Sample.pickNothing.nodeKey
      (LineageNode.dataset (.source Sample.dottedSource)).uri =
        some (.dataset (.source Sample.dottedSource)) := by
    decide +kernel
  obtain rfl : .dataset (.source Sample.dottedSource) = key :=
    Option.some.inj (hfound.symm.trans hkey)
  have hlisted : ∀ other ∈ Sample.pickNothing.downstreamTransitive
      (.dataset (.source Sample.dottedSource)), other.isColumn = false ∧
        other ≠ .dataset (.source Sample.dottedSource) ∧ other.label = "assay.pick" := by
    decide +kernel
  have hall : ∀ other, Relation.TransGen Sample.pickNothing.Feeds
      (.dataset (.source Sample.dottedSource)) other → other.isColumn = false ∧
        other ≠ .dataset (.source Sample.dottedSource) ∧ other.label = "assay.pick" := by
    intro other hother
    exact hlisted other (LineageGraph.mem_downstreamTransitive_iff.2 hother)
  apply reachesConsumers_of_all
  · intro other hother
    refine ⟨hother, (hall other hother).1, ?_⟩
    rintro (hsame | ⟨id, hid, hsame⟩)
    · exact (hall other hother).2.1 hsame
    · cases hid
      exact (hall other hother).2.1 hsame
  · intro other hother
    rw [(hall other hother).2.2]
    decide +kernel
  · intro other hother column hcolumn
    have hnone : ∀ node ∈ Sample.pickNothing.nodes.map Prod.fst, node.isColumn = false := by
      decide +kernel
    exact absurd (hnone _ hcolumn.1) (by simp [LineageNode.isColumn])

/-- The model that nothing reads is removed, and is listed as its own orphan with its
column. -/
theorem removed_model_orphans_itself :
    nodeImpacts Sample.pickOne (lineageDiff Sample.pickOne .empty) ≠ [] ∧
      ¬ OrphansExact Sample.pickOne .empty (.model (Sample.id "pick" (by decide))) := by
  have hmodel : .model (Sample.id "pick" (by decide)) ∈ Sample.pickOne.nodes.map Prod.fst := by
    decide +kernel
  have hkey : Sample.pickOne.nodeKey (LineageNode.model (Sample.id "pick" (by decide))).uri =
      some (.model (Sample.id "pick" (by decide))) := by
    decide +kernel
  have houtput : .dataset (.model (Sample.id "pick" (by decide))) ∈
      Sample.pickOne.downstream (.model (Sample.id "pick" (by decide))) := by
    decide +kernel
  refine ⟨by decide +kernel, ?_⟩
  exact not_orphansExact_of_feeds_output hmodel (by simp [LineageGraph.empty]) hkey
    (LineageGraph.mem_downstream.1 houtput)

end PhloTransform.Core
