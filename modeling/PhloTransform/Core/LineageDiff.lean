import Mathlib.Data.Set.Function
import Mathlib.Logic.Equiv.Basic
import PhloTransform.Core.Lineage

/-!
# Lineage diffs

The diff of two lineage graphs reports the nodes and the edges that only one of them has,
and the changes of what both have.  Parallel edges are compared as bags: equal ones cancel,
and the leftovers are paired up as changes.

Main results:

- Theorem `isEmpty_iff`: the diff is empty exactly for the same graph.
- Theorem `length_edges`: removed and added edges account for every edge.
-/

namespace PhloTransform.Core

open Library (Table cancel group)

/-! ## Reports -/

/-- One node in the diff. -/
structure DiffNode where
  uri : String
  kind : String
  name : String
deriving Repr, DecidableEq

/-- A node present on both sides whose metadata changed. -/
structure NodeChange where
  uri : String
  kind : String
  name : String
  changes : List String
deriving Repr, DecidableEq

/-- One edge in the diff. -/
structure DiffEdge where
  origin : String
  target : String
  kind : String
  detail : Option String
deriving Repr, DecidableEq

/-- An edge present on both sides whose metadata changed. -/
structure EdgeChange where
  origin : String
  target : String
  kind : String
  changes : List String
deriving Repr, DecidableEq

/-- The structural delta between two lineage graphs. -/
structure LineageDiff where
  nodesAdded : List DiffNode
  nodesRemoved : List DiffNode
  nodesChanged : List NodeChange
  edgesAdded : List DiffEdge
  edgesRemoved : List DiffEdge
  edgesChanged : List EdgeChange
deriving Repr, DecidableEq

/-- Whether the diff reports no change at all. -/
def LineageDiff.isEmpty (diff : LineageDiff) : Bool :=
  diff.nodesAdded.isEmpty && diff.nodesRemoved.isEmpty && diff.nodesChanged.isEmpty &&
    diff.edgesAdded.isEmpty && diff.edgesRemoved.isEmpty && diff.edgesChanged.isEmpty

/-! ## Descriptions -/

/-- `field: old -> new`, when the field differs. -/
def fieldChange {α : Type*} [DecidableEq α] (field : String) (display : α → String)
    (old new : α) : List String :=
  if old = new then [] else [field ++ ": " ++ display old ++ " -> " ++ display new]

@[simp]
theorem fieldChange_eq_nil {α : Type*} [DecidableEq α] {field : String} {display : α → String}
    {old new : α} : fieldChange field display old new = [] ↔ old = new := by
  simp [fieldChange]

/-- `opt`. -/
def orDash (value : Option String) : String :=
  value.getD "-"

/-- The debug form of an optional value. -/
def debugOption {α : Type*} (debug : α → String) : Option α → String
  | some a => "Some(" ++ debug a ++ ")"
  | none => "None"

def Directness.debug : Directness → String
  | direct => "Direct"
  | indirect => "Indirect"

def Transformation.debug : Transformation → String
  | identity => "Identity"
  | transformation => "Transformation"
  | aggregation => "Aggregation"
  | join => "Join"
  | filter => "Filter"
  | groupBy => "GroupBy"
  | sort => "Sort"
  | window => "Window"
  | conditional => "Conditional"

def LineageConfidence.debug : LineageConfidence → String
  | exact => "Exact"
  | inferred => "Inferred"
  | declared => "Declared"
  | runtime => "Runtime"
  | unknown => "Unknown"

/-- The first twelve characters of a hash. -/
def shortHash (hash : String) : String :=
  String.ofList (hash.toList.take 12)

/-- A text cut to `max` characters. -/
def truncate (text : String) (max : Nat) : String :=
  if text.toList.length ≤ max then text else String.ofList (text.toList.take max) ++ "…"

/-- A description for every metadata field that differs. -/
def metaChanges (base candidate : NodeMeta) : List String :=
  fieldChange "path" orDash base.path candidate.path ++
    fieldChange "version" (fun v => shortHash (orDash v)) base.version candidate.version ++
    fieldChange "dataset kind" (fun kind => orDash (kind.map DatasetKind.asStr))
      base.datasetKind candidate.datasetKind ++
    fieldChange "target" orDash base.target candidate.target ++
    fieldChange "type" orDash base.dataType candidate.dataType ++
    fieldChange "nullability" orDash base.nullability candidate.nullability ++
    fieldChange "confidence" (debugOption LineageConfidence.debug)
      base.confidence candidate.confidence ++
    fieldChange "generated" toString base.generated candidate.generated ++
    fieldChange "materialization" orDash base.materialization candidate.materialization ++
    fieldChange "workflow" orDash base.workflow candidate.workflow

/-- A description for every edge field that differs. -/
def edgeChanges (base candidate : LineageEdge) : List String :=
  fieldChange "directness" (debugOption Directness.debug) base.directness candidate.directness ++
    fieldChange "transformation" (debugOption Transformation.debug)
      base.transformation candidate.transformation ++
    fieldChange "confidence" (debugOption LineageConfidence.debug)
      base.confidence candidate.confidence ++
    fieldChange "expression" (fun e => truncate (orDash e) 60)
      base.expression candidate.expression

/-- A one-line summary of an edge's metadata. -/
def edgeDetail (edge : LineageEdge) : Option String :=
  let parts := (edge.directness.map fun d => d.debug.toLower).toList ++
    (edge.transformation.map fun t => t.debug.toLower).toList ++
    (edge.expression.map fun e => "`" ++ truncate e 60 ++ "`").toList
  if parts.isEmpty then none else some (", ".intercalate parts)

theorem metaChanges_eq_nil {base candidate : NodeMeta} :
    metaChanges base candidate = [] ↔ base = candidate := by
  obtain ⟨path, version, kind, target, type, null, confidence, generated, materialization,
    workflow⟩ := base
  obtain ⟨path', version', kind', target', type', null', confidence', generated',
    materialization', workflow'⟩ := candidate
  simp [metaChanges]

theorem edgeChanges_eq_nil {base candidate : LineageEdge} (hkind : base.kind = candidate.kind) :
    edgeChanges base candidate = [] ↔ base = candidate := by
  obtain ⟨kind, directness, transformation, confidence, expression⟩ := base
  obtain ⟨kind', directness', transformation', confidence', expression'⟩ := candidate
  obtain rfl : kind = kind' := hkind
  simp [edgeChanges]

/-! ## The diff -/

namespace LineageNode

def label : LineageNode → String
  | column c => c.dataset.name ++ "." ++ c.name
  | node => node.name

def diffNode (node : LineageNode) : DiffNode where
  uri := node.uri
  kind := node.kind
  name := node.label

end LineageNode

/-- What parallel edges have in common. -/
structure EdgeKey where
  origin : LineageNode
  target : LineageNode
  kind : LineageEdgeKind
deriving DecidableEq

def EdgeKey.sortKey (key : EdgeKey) : Lex (LineageNode × Lex (LineageNode × Nat)) :=
  toLex (key.origin, toLex (key.target, key.kind.rank))

def edgeKey (row : LineageNode × LineageNode × LineageEdge) : EdgeKey where
  origin := row.1
  target := row.2.1
  kind := row.2.2.kind

namespace LineageGraph

def metaTable (graph : LineageGraph) : Table (Prod.fst : LineageNode × NodeMeta → LineageNode) where
  rows := graph.nodes
  nodup_keys := graph.nodes_sorted.imp ne_of_lt

def edgeKeys (graph : LineageGraph) : List EdgeKey :=
  (graph.edges.map edgeKey).dedup.insertionSort fun a b => a.sortKey ≤ b.sortKey

/-- The parallel edges of a key, sorted by their metadata. -/
def edgeBag (graph : LineageGraph) (key : EdgeKey) : List LineageEdge :=
  ((group edgeKey graph.edges key).map fun row => row.2.2).insertionSort
    fun a b => a.sortKey ≤ b.sortKey

end LineageGraph

/-- What becomes of the parallel edges of a key. -/
structure EdgeDelta where
  changed : List (LineageEdge × LineageEdge)
  removed : List LineageEdge
  added : List LineageEdge

/-- Cancel identical edges, pair the leftovers, and keep the excess of either side. -/
def edgeDelta (base candidate : List LineageEdge) : EdgeDelta :=
  let left := cancel LineageEdge.sortKey base candidate
  { changed := left.1.zip left.2
    removed := left.1.drop left.2.length
    added := left.2.drop left.1.length }

def EdgeKey.diffEdge (key : EdgeKey) (edge : LineageEdge) : DiffEdge where
  origin := key.origin.uri
  target := key.target.uri
  kind := key.kind.asStr
  detail := edgeDetail edge

def EdgeKey.edgeChange (key : EdgeKey) (pair : LineageEdge × LineageEdge) : EdgeChange where
  origin := key.origin.uri
  target := key.target.uri
  kind := key.kind.asStr
  changes := edgeChanges pair.1 pair.2

section Diff

variable (base candidate : LineageGraph)

/-- The keys of the candidate, then those of the base alone. -/
def allEdgeKeys : List EdgeKey :=
  candidate.edgeKeys ++ base.edgeKeys.filter fun key => decide (key ∉ candidate.edgeKeys)

/-- What becomes of the edges of a key; one side alone is compared with no edges. -/
def deltaAt (key : EdgeKey) : EdgeDelta :=
  edgeDelta (base.edgeBag key) (candidate.edgeBag key)

/-- What changed about a node that the base has too. -/
def nodeChange (row : LineageNode × NodeMeta) : Option NodeChange :=
  match base.metaTable.get? row.1 with
  | none => none
  | some old =>
    let changes := metaChanges old.2 row.2
    if changes.isEmpty then none
    else
      let entry := row.1.diffNode
      some { uri := entry.uri, kind := entry.kind, name := entry.name, changes }

/-- `lineage_diff`, without its impacts. -/
def lineageDiff : LineageDiff where
  nodesAdded := (candidate.nodes.filter fun row => (base.metaTable.get? row.1).isNone).map
    fun row => row.1.diffNode
  nodesRemoved := (base.nodes.filter fun row => (candidate.metaTable.get? row.1).isNone).map
    fun row => row.1.diffNode
  nodesChanged := candidate.nodes.filterMap (nodeChange base)
  edgesAdded := (allEdgeKeys base candidate).flatMap fun key =>
    (deltaAt base candidate key).added.map key.diffEdge
  edgesRemoved := (allEdgeKeys base candidate).flatMap fun key =>
    (deltaAt base candidate key).removed.map key.diffEdge
  edgesChanged := (allEdgeKeys base candidate).flatMap fun key =>
    (deltaAt base candidate key).changed.map key.edgeChange

/-- The same nodes with equal metadata, and the same bag of edges. -/
def Same : Prop :=
  base.nodes = candidate.nodes ∧ base.edges.Perm candidate.edges

end Diff

/-! ## One bag of parallel edges -/

section Bags

variable {graph : LineageGraph} {key : EdgeKey} {l r : List LineageEdge}

theorem mem_edgeBag {edge : LineageEdge} :
    edge ∈ graph.edgeBag key ↔
      (key.origin, key.target, edge) ∈ graph.edges ∧ edge.kind = key.kind := by
  obtain ⟨origin, target, kind⟩ := key
  simp only [LineageGraph.edgeBag, List.mem_insertionSort, List.mem_map, Library.mem_group]
  constructor
  · rintro ⟨⟨origin', target', edge'⟩, ⟨hmem, hkey⟩, rfl⟩
    simp only [edgeKey, EdgeKey.mk.injEq] at hkey
    obtain ⟨rfl, rfl, rfl⟩ := hkey
    exact ⟨hmem, rfl⟩
  · rintro ⟨hmem, rfl⟩
    exact ⟨_, ⟨hmem, rfl⟩, rfl⟩

theorem edgeBag_sorted (graph : LineageGraph) (key : EdgeKey) :
    (graph.edgeBag key).Pairwise fun a b => a.sortKey ≤ b.sortKey :=
  Library.pairwise_insertionSort_key _ _

theorem edgeBag_key (base candidate : LineageGraph) (key : EdgeKey) :
    ∀ a ∈ base.edgeBag key, ∀ b ∈ candidate.edgeBag key, a.sortKey = b.sortKey → a = b :=
  fun _ ha _ hb =>
    LineageEdge.eq_of_sortKey_eq ((mem_edgeBag.1 ha).2.trans (mem_edgeBag.1 hb).2.symm)

theorem edgeBag_nodup (graph : LineageGraph) (key : EdgeKey) : (graph.edgeBag key).Nodup := by
  refine (List.perm_insertionSort _ _).nodup_iff.2 (List.Nodup.map_on ?_ ?_)
  · rintro ⟨origin, target, edge⟩ hrow ⟨origin', target', edge'⟩ hrow' rfl
    have hkey := (Library.mem_group.1 hrow).2.trans (Library.mem_group.1 hrow').2.symm
    simp only [edgeKey, EdgeKey.mk.injEq] at hkey
    obtain ⟨rfl, rfl, -⟩ := hkey
    rfl
  · exact graph.edges_nodup.filter _

theorem length_edgeBag (graph : LineageGraph) (key : EdgeKey) :
    (graph.edgeBag key).length = (group edgeKey graph.edges key).length := by
  simp [LineageGraph.edgeBag]

theorem length_edgeDelta (l r : List LineageEdge) :
    l.length + (edgeDelta l r).added.length = r.length + (edgeDelta l r).removed.length := by
  have := Library.length_cancel LineageEdge.sortKey l r
  simp only [edgeDelta, List.length_drop]
  omega

/-- The edges that an entry of the delta is about come from the leftovers. -/
theorem mem_cancel_of_mem_edgeDelta (l r : List LineageEdge) (edge : LineageEdge) :
    (edge ∈ (edgeDelta l r).removed → edge ∈ (cancel LineageEdge.sortKey l r).1) ∧
      (edge ∈ (edgeDelta l r).added → edge ∈ (cancel LineageEdge.sortKey l r).2) ∧
      ∀ pair ∈ (edgeDelta l r).changed, pair.1 ∈ (cancel LineageEdge.sortKey l r).1 ∧
        pair.2 ∈ (cancel LineageEdge.sortKey l r).2 :=
  ⟨List.mem_of_mem_drop, List.mem_of_mem_drop, fun _ h => List.of_mem_zip h⟩

theorem edgeDelta_empty_iff :
    ((edgeDelta l r).changed = [] ∧ (edgeDelta l r).removed = [] ∧ (edgeDelta l r).added = []) ↔
      cancel LineageEdge.sortKey l r = ([], []) := by
  constructor
  · rintro ⟨hchanged, hremoved, hadded⟩
    have hzip := congrArg List.length hchanged
    simp only [edgeDelta, List.length_zip, List.length_nil] at hzip
    simp only [edgeDelta, List.drop_eq_nil_iff] at hremoved hadded
    refine Prod.ext (List.eq_nil_of_length_eq_zero ?_) (List.eq_nil_of_length_eq_zero ?_) <;>
      omega
  · intro h
    simp [edgeDelta, h]

/-- What is left of either bag is in that bag and not in the other one. -/
theorem mem_cancel_edgeBag (base candidate : LineageGraph) (key : EdgeKey) (edge : LineageEdge) :
    (edge ∈ (cancel LineageEdge.sortKey (base.edgeBag key) (candidate.edgeBag key)).1 →
        edge ∈ base.edgeBag key ∧ edge ∉ candidate.edgeBag key) ∧
      (edge ∈ (cancel LineageEdge.sortKey (base.edgeBag key) (candidate.edgeBag key)).2 →
        edge ∈ candidate.edgeBag key ∧ edge ∉ base.edgeBag key) := by
  obtain ⟨hleft, hright⟩ := Library.count_cancel (edgeBag_key base candidate key)
    (edgeBag_sorted base key) (edgeBag_sorted candidate key) edge
  have hone := List.nodup_iff_count_le_one.1 (edgeBag_nodup base key) edge
  have hone' := List.nodup_iff_count_le_one.1 (edgeBag_nodup candidate key) edge
  simp only [← List.count_pos_iff, hleft, hright]
  omega

end Bags

/-! ## All edges -/

section Edges

variable {base candidate : LineageGraph}

theorem mem_edgeKeys {graph : LineageGraph} {key : EdgeKey} :
    key ∈ graph.edgeKeys ↔ ∃ row ∈ graph.edges, edgeKey row = key := by
  simp [LineageGraph.edgeKeys]

theorem mem_allEdgeKeys {key : EdgeKey} :
    key ∈ allEdgeKeys base candidate ↔ key ∈ base.edgeKeys ∨ key ∈ candidate.edgeKeys := by
  simp only [allEdgeKeys, List.mem_append, List.mem_filter, decide_eq_true_eq]
  tauto

theorem allEdgeKeys_nodup (base candidate : LineageGraph) : (allEdgeKeys base candidate).Nodup := by
  have hkeys : ∀ graph : LineageGraph, graph.edgeKeys.Nodup := fun graph =>
    (List.perm_insertionSort _ _).nodup_iff.2 (List.nodup_dedup _)
  refine List.nodup_append.2 ⟨hkeys candidate, (hkeys base).filter _, fun a ha b hb => ?_⟩
  rintro rfl
  simp [ha] at hb

/-- Counting the edges of a graph whose keys are among the given ones. -/
theorem sum_length_edgeBag {graph : LineageGraph} {keys : List EdgeKey} (hnodup : keys.Nodup)
    (hkeys : ∀ row ∈ graph.edges, edgeKey row ∈ keys) (p : EdgeKey → Bool) :
    ((keys.filter p).map fun key => (graph.edgeBag key).length).sum =
      graph.edges.countP fun row => p (edgeKey row) := by
  rw [← Library.countP_groups hnodup hkeys]
  have hzero : ∀ keys : List EdgeKey,
      ((keys.filter p).map fun key => (graph.edgeBag key).length).sum =
        (keys.map fun key => (group edgeKey graph.edges key).countP fun row =>
          p (edgeKey row)).sum := by
    intro keys
    induction keys with
    | nil => rfl
    | cons key keys ih =>
      have hall : ∀ row ∈ group edgeKey graph.edges key, p (edgeKey row) = p key :=
        fun row hrow => by rw [(Library.mem_group.1 hrow).2]
      cases hp : p key with
      | true =>
        have hcount : (group edgeKey graph.edges key).countP (fun row => p (edgeKey row)) =
            (group edgeKey graph.edges key).length :=
          List.countP_eq_length.2 fun row hrow => (hall row hrow).trans hp
        rw [List.filter_cons_of_pos hp, List.map_cons, List.sum_cons, List.map_cons,
          List.sum_cons, ih, hcount, length_edgeBag]
      | false =>
        have hcount : (group edgeKey graph.edges key).countP (fun row => p (edgeKey row)) =
            0 :=
          List.countP_eq_zero.2 fun row hrow => by simp [hall row hrow, hp]
        simp [hp, ih, hcount]
  exact hzero keys

def EdgeKey.named (origin target kind : String) (key : EdgeKey) : Bool :=
  decide (key.origin.uri = origin ∧ key.target.uri = target ∧ key.kind.asStr = kind)

def DiffEdge.named (origin target kind : String) (entry : DiffEdge) : Bool :=
  decide (entry.origin = origin ∧ entry.target = target ∧ entry.kind = kind)

theorem countP_entries (origin target kind : String) (edges : EdgeKey → List LineageEdge)
    (keys : List EdgeKey) :
    (keys.flatMap fun key => (edges key).map key.diffEdge).countP
        (DiffEdge.named origin target kind) =
      ((keys.filter (EdgeKey.named origin target kind)).map fun key => (edges key).length).sum := by
  induction keys with
  | nil => rfl
  | cons key keys ih =>
    have hentry : ∀ edge, DiffEdge.named origin target kind (key.diffEdge edge) =
        EdgeKey.named origin target kind key := fun _ => rfl
    rw [List.flatMap_cons, List.countP_append, ih, List.countP_map]
    cases hnamed : EdgeKey.named origin target kind key with
    | true =>
      have hcount : (edges key).countP (DiffEdge.named origin target kind ∘ key.diffEdge) =
          (edges key).length :=
        List.countP_eq_length.2 fun edge _ => (hentry edge).trans hnamed
      simp [hnamed, hcount]
    | false =>
      have hcount : (edges key).countP (DiffEdge.named origin target kind ∘ key.diffEdge) =
          0 :=
        List.countP_eq_zero.2 fun edge _ => by
          rw [Function.comp_apply, hentry, hnamed]
          simp
      simp [hnamed, hcount]

/-- Removed and added edges account for every edge: base edges and added ones are as many as
candidate edges and removed ones, for each origin, target and kind. -/
theorem length_edges (base candidate : LineageGraph) (origin target kind : String) :
    (base.edges.countP fun row => (edgeKey row).named origin target kind) +
        (lineageDiff base candidate).edgesAdded.countP (DiffEdge.named origin target kind) =
      (candidate.edges.countP fun row => (edgeKey row).named origin target kind) +
        (lineageDiff base candidate).edgesRemoved.countP (DiffEdge.named origin target kind) := by
  have hbase : ∀ row ∈ base.edges, edgeKey row ∈ allEdgeKeys base candidate := fun row hrow =>
    mem_allEdgeKeys.2 (.inl (mem_edgeKeys.2 ⟨row, hrow, rfl⟩))
  have hcandidate : ∀ row ∈ candidate.edges, edgeKey row ∈ allEdgeKeys base candidate :=
    fun row hrow => mem_allEdgeKeys.2 (.inr (mem_edgeKeys.2 ⟨row, hrow, rfl⟩))
  have hnodup := allEdgeKeys_nodup base candidate
  simp only [lineageDiff, countP_entries]
  rw [← sum_length_edgeBag hnodup hbase, ← sum_length_edgeBag hnodup hcandidate,
    ← List.sum_map_add, ← List.sum_map_add]
  congr 1
  apply List.map_congr_left
  intro key _
  exact length_edgeDelta _ _

theorem deltaAt_empty_iff {key : EdgeKey} :
    ((deltaAt base candidate key).changed = [] ∧ (deltaAt base candidate key).removed = [] ∧
        (deltaAt base candidate key).added = []) ↔
      (base.edgeBag key).Perm (candidate.edgeBag key) :=
  edgeDelta_empty_iff.trans (Library.cancel_eq_nil_iff (edgeBag_key base candidate key)
    (edgeBag_sorted base key) (edgeBag_sorted candidate key))

/-- Two graphs have the same edges when they have the same bags of parallel edges. -/
theorem edges_perm_iff :
    base.edges.Perm candidate.edges ↔
      ∀ key ∈ allEdgeKeys base candidate, (base.edgeBag key).Perm (candidate.edgeBag key) := by
  constructor
  · intro hperm key _
    exact (List.perm_insertionSort _ _).trans
      (((hperm.filter _).map _).trans (List.perm_insertionSort _ _).symm)
  · intro hbags
    rw [List.perm_ext_iff_of_nodup base.edges_nodup candidate.edges_nodup]
    rintro ⟨origin, target, edge⟩
    have hbag : ∀ graph : LineageGraph, (origin, target, edge) ∈ graph.edges ↔
        edge ∈ graph.edgeBag (edgeKey (origin, target, edge)) := fun graph => by
      rw [mem_edgeBag]
      simp [edgeKey]
    by_cases hkey : edgeKey (origin, target, edge) ∈ allEdgeKeys base candidate
    · rw [hbag, hbag, (hbags _ hkey).mem_iff]
    · have hnone : ∀ graph : LineageGraph, edgeKey (origin, target, edge) ∉ graph.edgeKeys →
          (origin, target, edge) ∉ graph.edges := fun graph hnot hmem =>
        hnot (mem_edgeKeys.2 ⟨_, hmem, rfl⟩)
      rw [mem_allEdgeKeys, not_or] at hkey
      exact iff_of_false (hnone _ hkey.1) (hnone _ hkey.2)

end Edges

/-! ## Nodes -/

section Nodes

variable {base candidate : LineageGraph}
variable {row : LineageNode × NodeMeta}

theorem mem_nodes_iff {graph : LineageGraph} :
    row ∈ graph.nodes ↔ graph.metaTable.get? row.1 = some row :=
  graph.metaTable.mem_rows_iff row

theorem get?_metaTable_eq_none {graph : LineageGraph} {node : LineageNode} :
    graph.metaTable.get? node = none ↔ node ∉ graph.nodes.map Prod.fst := by
  rw [Table.get?, List.find?_eq_none, List.mem_map]
  simp only [decide_eq_true_eq, not_exists, not_and]
  rfl

theorem nodeChange_eq_none :
    nodeChange base row = none ↔ row.1 ∉ base.nodes.map Prod.fst ∨ row ∈ base.nodes := by
  unfold nodeChange
  cases hold : base.metaTable.get? row.1 with
  | none => simpa using Or.inl (get?_metaTable_eq_none.1 hold)
  | some old =>
    have hkey : old.1 = row.1 := Table.key_of_get? hold
    have hmem : row.1 ∈ base.nodes.map Prod.fst := by
      by_contra hnot
      rw [get?_metaTable_eq_none.2 hnot] at hold
      cases hold
    rw [mem_nodes_iff, hold]
    simp only [hmem, not_true, false_or, Option.some.injEq]
    by_cases hchanges : metaChanges old.2 row.2 = []
    · rw [metaChanges_eq_nil] at hchanges
      simp [metaChanges_eq_nil.2, Prod.ext hkey hchanges]
    · have hne : old ≠ row := fun heq => hchanges (metaChanges_eq_nil.2 (heq ▸ rfl))
      simp [hchanges, hne]

/-- No node is reported exactly when both graphs have the same nodes with equal metadata. -/
theorem nodes_eq_iff :
    ((lineageDiff base candidate).nodesAdded = [] ∧
        (lineageDiff base candidate).nodesRemoved = [] ∧
        (lineageDiff base candidate).nodesChanged = []) ↔ base.nodes = candidate.nodes := by
  simp only [lineageDiff, List.map_eq_nil_iff, List.filter_eq_nil_iff, List.filterMap_eq_nil_iff,
    Option.isNone_iff_eq_none, get?_metaTable_eq_none, not_not, nodeChange_eq_none]
  constructor
  · rintro ⟨hadded, hremoved, hchanged⟩
    have hsub : ∀ row ∈ candidate.nodes, row ∈ base.nodes := fun row hrow =>
      (hchanged row hrow).resolve_left fun hnot => hnot (hadded row hrow)
    have hsup : ∀ row ∈ base.nodes, row ∈ candidate.nodes := by
      intro row hrow
      obtain ⟨found, hfound, hkey⟩ := List.mem_map.1 (hremoved row hrow)
      have hsame : found = row := by
        have := mem_nodes_iff.1 (hsub found hfound)
        rw [hkey, mem_nodes_iff.1 hrow] at this
        exact (Option.some.inj this).symm
      exact hsame ▸ hfound
    have hnodup : ∀ graph : LineageGraph, graph.nodes.Nodup := fun graph =>
      (graph.nodes_sorted.imp ne_of_lt).of_map _ fun _ _ h heq => h (heq ▸ rfl)
    have hperm : base.nodes.Perm candidate.nodes :=
      (List.perm_ext_iff_of_nodup (hnodup base) (hnodup candidate)).2 fun row =>
        ⟨hsup row, hsub row⟩
    have hsorted : ∀ graph : LineageGraph, graph.nodes.Pairwise fun a b => a.1 < b.1 :=
      fun graph => List.pairwise_map.1 graph.nodes_sorted
    refine hperm.eq_of_pairwise (fun a b _ _ hab hba => ?_) (hsorted base) (hsorted candidate)
    exact absurd hab (lt_asymm hba)
  · intro h
    rw [h]
    exact ⟨fun row hrow => List.mem_map_of_mem hrow, fun row hrow => List.mem_map_of_mem hrow,
      fun row hrow => .inr hrow⟩

end Nodes

/-! ## What the diff says -/

section Exact

variable {base candidate : LineageGraph}

theorem isEmpty_iff : (lineageDiff base candidate).isEmpty = true ↔ Same base candidate := by
  have hedges : ((lineageDiff base candidate).edgesAdded = [] ∧
      (lineageDiff base candidate).edgesRemoved = [] ∧
        (lineageDiff base candidate).edgesChanged = []) ↔
          base.edges.Perm candidate.edges := by
    simp only [lineageDiff, List.flatMap_eq_nil_iff, List.map_eq_nil_iff, edges_perm_iff,
      ← deltaAt_empty_iff]
    constructor
    · rintro ⟨hadded, hremoved, hchanged⟩ key hkey
      exact ⟨hchanged key hkey, hremoved key hkey, hadded key hkey⟩
    · intro h
      exact ⟨fun key hkey => (h key hkey).2.2, fun key hkey => (h key hkey).2.1,
        fun key hkey => (h key hkey).1⟩
  rw [Same, ← nodes_eq_iff, ← hedges]
  simp only [LineageDiff.isEmpty, Bool.and_eq_true, List.isEmpty_iff, and_assoc]

/-- The edges that the entries for a key are about. -/
def EdgeDelta.edges (delta : EdgeDelta) : List LineageEdge :=
  delta.removed ++ delta.added ++ delta.changed.flatMap fun pair => [pair.1, pair.2]

theorem untouched {key : EdgeKey} {edge : LineageEdge}
    (hbase : (key.origin, key.target, edge) ∈ base.edges)
    (hcandidate : (key.origin, key.target, edge) ∈ candidate.edges)
    (hkind : edge.kind = key.kind) : edge ∉ (deltaAt base candidate key).edges := by
  obtain ⟨hleft, hright⟩ := mem_cancel_edgeBag base candidate key edge
  obtain ⟨hremoved, hadded, hchanged⟩ :=
    mem_cancel_of_mem_edgeDelta (base.edgeBag key) (candidate.edgeBag key) edge
  have hinbase := mem_edgeBag.2 ⟨hbase, hkind⟩
  have hincandidate := mem_edgeBag.2 ⟨hcandidate, hkind⟩
  intro hmem
  simp only [EdgeDelta.edges, List.mem_append, List.mem_flatMap, List.mem_cons,
    List.not_mem_nil, or_false] at hmem
  rcases hmem with (hmem | hmem) | ⟨pair, hpair, rfl | rfl⟩
  · exact (hleft (hremoved hmem)).2 hincandidate
  · exact (hright (hadded hmem)).2 hinbase
  · exact (hleft (hchanged pair hpair).1).2 hincandidate
  · exact (hright (hchanged pair hpair).2).2 hinbase

theorem changes_ne_nil :
    (∀ entry ∈ (lineageDiff base candidate).nodesChanged, entry.changes ≠ []) ∧
      ∀ entry ∈ (lineageDiff base candidate).edgesChanged, entry.changes ≠ [] := by
  constructor
  · intro entry hentry
    obtain ⟨row, -, hrow⟩ := List.mem_filterMap.1 hentry
    unfold nodeChange at hrow
    cases hold : base.metaTable.get? row.1 with
    | none => simp [hold] at hrow
    | some old =>
      by_cases hchanges : metaChanges old.2 row.2 = []
      · simp [hold, hchanges] at hrow
      · simp only [hold, List.isEmpty_iff, hchanges, if_false, Option.some.injEq] at hrow
        rw [← hrow]
        exact hchanges
  · intro entry hentry
    obtain ⟨key, -, hentry⟩ := List.mem_flatMap.1 hentry
    obtain ⟨pair, hpair, rfl⟩ := List.mem_map.1 hentry
    obtain ⟨hleft, hright⟩ := List.of_mem_zip hpair
    obtain ⟨hinbase, hnot⟩ := (mem_cancel_edgeBag base candidate key pair.1).1 hleft
    have hincandidate := ((mem_cancel_edgeBag base candidate key pair.2).2 hright).1
    have hkind := (mem_edgeBag.1 hinbase).2.trans (mem_edgeBag.1 hincandidate).2.symm
    intro hnil
    rw [(edgeChanges_eq_nil hkind).1 hnil] at hnot
    exact hnot hincandidate

end Exact

/-! ## Diffs and fingerprints -/

/-- The diff is an exact difference, and the fingerprint agrees with it. -/
structure ExactDiff [Sha256] (base candidate : LineageGraph) : Prop where
  empty_iff : (lineageDiff base candidate).isEmpty = true ↔ Same base candidate
  fingerprint_iff : (lineageDiff base candidate).isEmpty = true ↔
    base.fingerprint = candidate.fingerprint
  length_edges : ∀ origin target kind,
    (base.edges.countP fun row => (edgeKey row).named origin target kind) +
        (lineageDiff base candidate).edgesAdded.countP (DiffEdge.named origin target kind) =
      (candidate.edges.countP fun row => (edgeKey row).named origin target kind) +
        (lineageDiff base candidate).edgesRemoved.countP (DiffEdge.named origin target kind)
  untouched : ∀ row ∈ base.edges, row ∈ candidate.edges →
    row.2.2 ∉ (deltaAt base candidate (edgeKey row)).edges
  changes : (∀ entry ∈ (lineageDiff base candidate).nodesChanged, entry.changes ≠ []) ∧
    ∀ entry ∈ (lineageDiff base candidate).edgesChanged, entry.changes ≠ []

section Fingerprints

variable {base candidate : LineageGraph}

/-- The node of a URI among those whose URIs are told apart, and the rows read back. -/
theorem same_of_rows {nodes : Set LineageNode} (huri : Set.InjOn LineageNode.uri nodes)
    (hbase : ∀ node ∈ base.nodes.map Prod.fst, node ∈ nodes)
    (hcandidate : ∀ node ∈ candidate.nodes.map Prod.fst, node ∈ nodes)
    (hnodes : base.nodeRows = candidate.nodeRows)
    (hedges : base.edgeRows.Perm candidate.edgeRows) : Same base candidate := by
  have : Nonempty LineageNode := ⟨.test ""⟩
  obtain ⟨back, hback⟩ : ∃ back : String → LineageNode, ∀ node ∈ nodes, back node.uri = node :=
    ⟨Function.invFunOn LineageNode.uri nodes, huri.leftInvOn_invFunOn⟩
  have hnoderows : ∀ graph : LineageGraph, (∀ node ∈ graph.nodes.map Prod.fst, node ∈ nodes) →
      graph.nodeRows.map (fun row => (back row.uri, row.data)) = graph.nodes := by
    intro graph hgraph
    rw [LineageGraph.nodeRows, List.map_map]
    refine Eq.trans (List.map_congr_left fun row hrow => ?_) (List.map_id _)
    exact Prod.ext (hback _ (hgraph _ (List.mem_map_of_mem hrow))) rfl
  have hedgerows : ∀ graph : LineageGraph, (∀ node ∈ graph.nodes.map Prod.fst, node ∈ nodes) →
      graph.edgeRows.map (fun row => (back row.origin, back row.target, row.edge)) =
        graph.edges := by
    intro graph hgraph
    rw [LineageGraph.edgeRows, List.map_map]
    refine Eq.trans (List.map_congr_left fun row hrow => ?_) (List.map_id _)
    obtain ⟨horigin, htarget⟩ := graph.endpoints row hrow
    exact Prod.ext (hback _ (hgraph _ horigin)) (Prod.ext (hback _ (hgraph _ htarget)) rfl)
  constructor
  · rw [← hnoderows base hbase, ← hnoderows candidate hcandidate, hnodes]
  · rw [← hedgerows base hbase, ← hedgerows candidate hcandidate]
    exact hedges.map _

/-- Two nodes, and an edge from one of them to itself. -/
def loopAt (a b node : LineageNode) : LineageGraph :=
  ((LineageGraph.empty.ensureNode a .empty).ensureNode b .empty).addEdge node node (.plain .derives)

theorem nodes_addEdge (graph : LineageGraph) (origin target : LineageNode) (edge : LineageEdge) :
    (graph.addEdge origin target edge).nodes = graph.nodes := by
  unfold LineageGraph.addEdge
  split <;> rfl

theorem edges_loopAt {a b node : LineageNode} (h : node = a ∨ node = b) :
    (loopAt a b node).edges = [(node, node, .plain .derives)] := by
  have hmem : node ∈ ((LineageGraph.empty.ensureNode a .empty).ensureNode b .empty).nodes.map
      Prod.fst := by
    rcases h with rfl | rfl <;>
      simp [LineageGraph.ensureNode, LineageGraph.mem_keys_insertNode]
  rw [loopAt, LineageGraph.addEdge, dif_pos ⟨⟨hmem, hmem⟩, by
    simp [LineageGraph.ensureNode, LineageGraph.empty]⟩]
  rfl

variable [Sha256]

theorem exactDiff_of_fingerprint
    (h : Same base candidate ↔ base.fingerprint = candidate.fingerprint) :
    ExactDiff base candidate where
  empty_iff := isEmpty_iff
  fingerprint_iff := isEmpty_iff.trans h
  length_edges := length_edges base candidate
  untouched _ hbase hcandidate := untouched hbase hcandidate rfl
  changes := changes_ne_nil

/-- On the graphs over a set of nodes, the diff is exact and agrees with the fingerprint
exactly when URIs tell these nodes apart. -/
theorem exactDiff_iff_injOn_uri (hsha : Function.Injective Sha256.hex)
    (nodes : Set LineageNode) :
    (∀ base candidate : LineageGraph, (∀ node ∈ base.nodes.map Prod.fst, node ∈ nodes) →
        (∀ node ∈ candidate.nodes.map Prod.fst, node ∈ nodes) → ExactDiff base candidate) ↔
      Set.InjOn LineageNode.uri nodes := by
  constructor
  · intro hexact a ha b hb huri
    have hkeys : ∀ node, ∀ k ∈ (loopAt a b node).nodes.map Prod.fst, k ∈ nodes := by
      intro node k hk
      rw [loopAt, nodes_addEdge] at hk
      simp only [LineageGraph.ensureNode, LineageGraph.mem_keys_insertNode] at hk
      rcases hk with rfl | rfl | hk
      · exact hb
      · exact ha
      · simp [LineageGraph.empty] at hk
    have hrows : (loopAt a b a).fingerprint = (loopAt a b b).fingerprint := by
      rw [LineageGraph.fingerprint_eq_iff hsha]
      constructor
      · simp only [LineageGraph.nodeRows, loopAt, nodes_addEdge]
      · simp [LineageGraph.edgeRows, edges_loopAt, huri]
    have hdiff := hexact _ _ (hkeys a) (hkeys b)
    have hsame := hdiff.empty_iff.1 (hdiff.fingerprint_iff.2 hrows)
    have hedges := hsame.2
    rw [edges_loopAt (.inl rfl), edges_loopAt (.inr rfl)] at hedges
    simpa using hedges
  · intro huri base candidate hbase hcandidate
    refine exactDiff_of_fingerprint ⟨fun h => ?_, fun h => ?_⟩
    · rw [LineageGraph.fingerprint_eq_iff hsha, LineageGraph.nodeRows, LineageGraph.nodeRows, h.1]
      exact ⟨rfl, h.2.map _⟩
    · obtain ⟨hnodes, hedges⟩ := (LineageGraph.fingerprint_eq_iff hsha).1 h
      exact same_of_rows huri hbase hcandidate hnodes hedges

end Fingerprints

/-! ## Two sources with one URI -/

namespace Sample

def slashSource : SourceId where
  parts := ["a/b"]
  parts_ne_nil := by simp

def dottedSource : SourceId where
  parts := ["a", "b"]
  parts_ne_nil := by simp

def pick (reads : List SourceId) (found : SourceId) : CompiledLineage where
  models :=
    [{ id := id "pick" (by decide)
       path := some "models/pick.sql"
       version := "8f2c"
       materialization := .table
       workflow := none
       target := { catalog := none, schema := "main", table := "pick" }
       dependencies := reads.map .source
       columns :=
        [{ name := "x"
           dataType := "VARCHAR"
           nullability := "unknown"
           inputs :=
            [{ relation := .source found
               column := "x"
               directness := .direct
               transformation := .identity
               confidence := .exact
               expression := none }]
           confidence := .exact }] }]
  seeds := []
  tests := []

def pickOne : LineageGraph :=
  .build (pick [dottedSource] dottedSource)

def pickOneOf (found : SourceId) : LineageGraph :=
  .build (pick [dottedSource, slashSource] found)

@[reducible]
def lineageDigest : Sha256 where
  hex := (Equiv.swap pickOne.canonical.text
      "d86c59ad00652e4cf203c1a9d6ac4dd0ba78d2ea733d8c618f7af34b2fad286b").trans
    (Equiv.swap (pickOneOf slashSource).canonical.text
      "8d304fdeffba9a2293eea98797aa9610552a1ae2d915a89e24ed42427c803455")

end Sample

/-- URIs tell the nodes of this lineage apart. -/
theorem exactDiff_pickOne : @ExactDiff Sample.lineageDigest Sample.pickOne Sample.pickOne := by
  have hrows : ∀ a ∈ Sample.pickOne.nodes.map Prod.fst,
      ∀ b ∈ Sample.pickOne.nodes.map Prod.fst, a.uri = b.uri → a = b := by decide +kernel
  exact (@exactDiff_iff_injOn_uri Sample.lineageDigest (Equiv.injective _)
    {n | n ∈ Sample.pickOne.nodes.map Prod.fst}).2 (fun a ha b hb => hrows a ha b hb) _ _
    (fun _ hnode => hnode) fun _ hnode => hnode

/-- The column moves to the other source of the same URI, and the fingerprint stays. -/
theorem moved_column_keeps_fingerprint :
    ¬ @ExactDiff Sample.lineageDigest (Sample.pickOneOf Sample.slashSource)
      (Sample.pickOneOf Sample.dottedSource) := by
  intro hexact
  have hnodes : (Sample.pickOneOf Sample.slashSource).nodeRows =
      (Sample.pickOneOf Sample.dottedSource).nodeRows := by decide +kernel
  have hedges : (Sample.pickOneOf Sample.slashSource).edgeRows =
      (Sample.pickOneOf Sample.dottedSource).edgeRows := by decide +kernel
  have hcanonical := LineageGraph.canonical_eq_iff.2 ⟨hnodes, hedges ▸ List.Perm.refl _⟩
  have hfingerprint : @LineageGraph.fingerprint Sample.lineageDigest
        (Sample.pickOneOf Sample.slashSource) =
      @LineageGraph.fingerprint Sample.lineageDigest (Sample.pickOneOf Sample.dottedSource) :=
    @LineageGraph.fingerprint_congr Sample.lineageDigest _ _ hcanonical
  have hempty := (@ExactDiff.fingerprint_iff Sample.lineageDigest _ _ hexact).2 hfingerprint
  have hmoved : (lineageDiff (Sample.pickOneOf Sample.slashSource)
      (Sample.pickOneOf Sample.dottedSource)).isEmpty = false := by decide +kernel
  rw [hmoved] at hempty
  cases hempty

end PhloTransform.Core
