import PhloTransform.Core.LineageDiff

/-!
# Impacts of a lineage diff

A removed node leaves behind everything downstream of it in the base graph, and an edge
that is removed or changed alters everything downstream of its target.

Main results:

- Theorem `LineageGraph.mem_downstreamTransitive_iff`: an impact lists the consumers, all
  of them and nothing else.
- Theorem `impacts_of_isEmpty`: an empty diff has no impact.
-/

namespace PhloTransform.Core

/-- What a removed node leaves behind. -/
structure LineageDiffImpact where
  node : String
  orphans : List String
deriving Repr, DecidableEq

/-- A lineage path that disappeared or moved. -/
structure EdgeImpact where
  origin : String
  target : String
  kind : String
  change : String
  downstream : List String
deriving Repr, DecidableEq

namespace LineageGraph

variable (graph : LineageGraph)
variable {start node : LineageNode} {fuel : Nat} {visited frontier : List LineageNode}
variable {a b : LineageNode}

/-- The nodes next downstream, in order. -/
def downstream (node : LineageNode) : List LineageNode :=
  (((graph.edges.filter fun edge => decide (edge.1 = node)).map fun edge =>
    edge.2.1).dedup).insertionSort (· ≤ ·)

/-- Breadth first from a queue; every node is visited once. -/
def walk : Nat → List LineageNode → List LineageNode → List LineageNode
  | 0, visited, _ => visited
  | _ + 1, visited, [] => visited
  | fuel + 1, visited, current :: frontier =>
    let new := (graph.downstream current).filter fun next => decide (next ∉ visited)
    walk fuel (visited ++ new) (frontier ++ new)

/-- All transitive downstream nodes: the start and each visited node are taken once. -/
def downstreamTransitive (node : LineageNode) : List LineageNode :=
  (graph.walk (graph.nodes.length + 1) [] [node]).insertionSort (· ≤ ·)

def nodeKey (uri : String) : Option LineageNode :=
  (graph.nodes.map Prod.fst).find? fun node => decide (node.uri = uri)

/-- The names downstream of a node, each once. -/
def consumers (node : LineageNode) : List String :=
  ((graph.downstreamTransitive node).map LineageNode.label).eraseDups

/-- Some edge leads from a node to the next one. -/
def Feeds (a b : LineageNode) : Prop :=
  ∃ edge, (a, b, edge) ∈ graph.edges

variable {graph}

theorem mem_downstream : b ∈ graph.downstream a ↔ graph.Feeds a b := by
  simp only [downstream, List.mem_insertionSort, List.mem_dedup, List.mem_map, List.mem_filter,
    decide_eq_true_eq, Feeds]
  constructor
  · rintro ⟨⟨origin, target, edge⟩, ⟨hmem, rfl⟩, rfl⟩
    exact ⟨edge, hmem⟩
  · rintro ⟨edge, hmem⟩
    exact ⟨(a, b, edge), ⟨hmem, rfl⟩, rfl⟩

theorem reaches_of_mem_walk (hvisited : ∀ node ∈ visited, Relation.TransGen graph.Feeds start node)
    (hfrontier : ∀ node ∈ frontier, Relation.ReflTransGen graph.Feeds start node) :
    ∀ node ∈ graph.walk fuel visited frontier, Relation.TransGen graph.Feeds start node := by
  induction fuel generalizing visited frontier with
  | zero => exact hvisited
  | succ fuel ih =>
    cases frontier with
    | nil => exact hvisited
    | cons current frontier =>
      rw [List.forall_mem_cons] at hfrontier
      have hnew : ∀ node ∈ (graph.downstream current).filter
          fun next => decide (next ∉ visited), Relation.TransGen graph.Feeds start node := by
        intro node hnode
        have hfeeds := mem_downstream.1 (List.mem_filter.1 hnode).1
        exact Relation.TransGen.tail' hfrontier.1 hfeeds
      apply ih
      · intro node hnode
        rcases List.mem_append.1 hnode with hnode | hnode
        · exact hvisited node hnode
        · exact hnew node hnode
      · intro node hnode
        rcases List.mem_append.1 hnode with hnode | hnode
        · exact hfrontier.2 node hnode
        · exact (hnew node hnode).to_reflTransGen

theorem reaches_of_mem_downstreamTransitive (h : node ∈ graph.downstreamTransitive start) :
    Relation.TransGen graph.Feeds start node := by
  rw [downstreamTransitive, List.mem_insertionSort] at h
  apply reaches_of_mem_walk _ _ node h
  · simp
  · intro other hother
    rw [List.mem_singleton.1 hother]

theorem Feeds.mem_nodes (h : graph.Feeds a b) : b ∈ graph.nodes.map Prod.fst := by
  obtain ⟨edge, hedge⟩ := h
  exact (graph.endpoints _ hedge).2

/-- What the walk relies on: every taken node is left behind with all that it feeds, and
the fuel pays for the nodes that are still to be taken. -/
structure Walking (graph : LineageGraph) (start : LineageNode) (fuel : Nat)
    (visited frontier : List LineageNode) : Prop where
  nodup : visited.Nodup
  known : ∀ node ∈ visited, node ∈ graph.nodes.map Prod.fst
  taken : ∀ node, node = start ∨ node ∈ visited → node ∈ frontier ∨
    ∀ next, graph.Feeds node next → next ∈ visited
  fuel : graph.nodes.length + frontier.length ≤ fuel + visited.length

theorem Walking.step {current : LineageNode}
    (h : Walking graph start (fuel + 1) visited (current :: frontier)) :
    Walking graph start fuel
      (visited ++ (graph.downstream current).filter fun next => decide (next ∉ visited))
      (frontier ++ (graph.downstream current).filter fun next => decide (next ∉ visited)) := by
  have hnew : ∀ node, node ∈ (graph.downstream current).filter
      (fun next => decide (next ∉ visited)) ↔ graph.Feeds current node ∧ node ∉ visited := by
    intro node
    rw [List.mem_filter, mem_downstream, decide_eq_true_eq]
  constructor
  · rw [List.nodup_append]
    refine ⟨h.nodup, ?_, ?_⟩
    · exact ((List.perm_insertionSort _ _).nodup_iff.2 (List.nodup_dedup _)).filter _
    · rintro node hold other hother rfl
      exact ((hnew node).1 hother).2 hold
  · intro node hnode
    rcases List.mem_append.1 hnode with hold | hadded
    · exact h.known node hold
    · exact ((hnew node).1 hadded).1.mem_nodes
  · intro node hnode
    have hcases : node ∈ current :: frontier ∨
        (∀ next, graph.Feeds node next → next ∈ visited) ∨
          node ∈ (graph.downstream current).filter fun next => decide (next ∉ visited) := by
      rcases hnode with rfl | hmem
      · exact (h.taken node (.inl rfl)).imp id .inl
      · rcases List.mem_append.1 hmem with hold | hadded
        · exact (h.taken node (.inr hold)).imp id .inl
        · exact .inr (.inr hadded)
    rcases hcases with hqueued | hleft | hadded
    · rcases List.mem_cons.1 hqueued with rfl | hlater
      · refine .inr fun next hnext => List.mem_append.2 ?_
        by_cases hvisited : next ∈ visited
        · exact .inl hvisited
        · exact .inr ((hnew next).2 ⟨hnext, hvisited⟩)
      · exact .inl (List.mem_append_left _ hlater)
    · exact .inr fun next hnext => List.mem_append_left _ (hleft next hnext)
    · exact .inl (List.mem_append_right _ hadded)
  · have hfuel := h.fuel
    simp only [List.length_cons, List.length_append] at hfuel ⊢
    omega

theorem Walking.mem_of_reaches (h : Walking graph start fuel visited [])
    (hreaches : Relation.TransGen graph.Feeds start node) : node ∈ visited := by
  induction hreaches with
  | single hfeeds => exact (h.taken start (.inl rfl)).resolve_left List.not_mem_nil _ hfeeds
  | tail _ hfeeds ih => exact (h.taken _ (.inr ih)).resolve_left List.not_mem_nil _ hfeeds

theorem mem_walk_of_reaches (h : Walking graph start fuel visited frontier)
    (hreaches : Relation.TransGen graph.Feeds start node) :
    node ∈ graph.walk fuel visited frontier := by
  induction fuel generalizing visited frontier with
  | zero =>
    have hlength : visited.length ≤ graph.nodes.length := by
      have hsub := h.nodup.subperm h.known
      simpa using hsub.length_le
    have hfuel := h.fuel
    have hempty : frontier = [] := List.eq_nil_of_length_eq_zero (by omega)
    subst hempty
    exact h.mem_of_reaches hreaches
  | succ fuel ih =>
    cases frontier with
    | nil => exact h.mem_of_reaches hreaches
    | cons current frontier => exact ih h.step

/-- What is listed downstream of a node is what it reaches. -/
theorem mem_downstreamTransitive_iff :
    node ∈ graph.downstreamTransitive start ↔ Relation.TransGen graph.Feeds start node := by
  constructor
  · exact reaches_of_mem_downstreamTransitive
  · intro hreaches
    rw [downstreamTransitive, List.mem_insertionSort]
    refine mem_walk_of_reaches ⟨.nil, by simp, ?_, by simp⟩ hreaches
    rintro other (rfl | hnone)
    · exact .inl (List.mem_singleton_self _)
    · exact absurd hnone List.not_mem_nil

end LineageGraph

/-! ## Impacts -/

variable (base : LineageGraph) (diff : LineageDiff)

/-- The consumers that the removed nodes orphan. -/
def nodeImpacts : List LineageDiffImpact :=
  diff.nodesRemoved.filterMap fun node =>
    match base.nodeKey node.uri with
    | none => none
    | some key =>
      let orphans := base.consumers key
      if orphans.isEmpty then none else some { node := node.uri, orphans }

def edgeImpact (origin target kind change : String) : Option EdgeImpact :=
  match base.nodeKey target with
  | none => none
  | some key =>
    let downstream := base.consumers key
    if downstream.isEmpty then none else some { origin, target, kind, change, downstream }

/-- What the removed and the changed edges alter. -/
def edgeImpacts : List EdgeImpact :=
  diff.edgesRemoved.filterMap (fun edge =>
    edgeImpact base edge.origin edge.target edge.kind "removed") ++
  diff.edgesChanged.filterMap fun edge =>
    edgeImpact base edge.origin edge.target edge.kind "changed"

variable {base diff}

theorem impacts_of_isEmpty (h : diff.isEmpty = true) :
    nodeImpacts base diff = [] ∧ edgeImpacts base diff = [] := by
  simp only [LineageDiff.isEmpty, Bool.and_eq_true, List.isEmpty_iff] at h
  obtain ⟨⟨⟨⟨⟨-, hnodes⟩, -⟩, -⟩, hremoved⟩, hchanged⟩ := h
  simp [nodeImpacts, edgeImpacts, hnodes, hremoved, hchanged]

end PhloTransform.Core
