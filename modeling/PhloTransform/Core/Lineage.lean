import Mathlib.Data.Prod.Lex
import Mathlib.Order.WithBot
import PhloTransform.Core.Compiled
import PhloTransform.Library.Bags
import PhloTransform.Library.JsonText

/-!
# The canonical lineage graph

Nodes are models, datasets, columns and tests, each with its metadata; edges point
downstream and may be parallel when their metadata differs.  The graph is built once from a
compilation.  Its fingerprint is the digest of a document that names the nodes by their
URIs.

Main results:

- Theorem `text_injective`: the text of a document determines the document.
- Theorem `fingerprint_eq_iff`: what equal fingerprints mean.
-/

namespace PhloTransform.Core

open Library (Scalar group objects)

/-! ## Nodes -/

/-- Logical identity of a dataset: a model output, an external source or a seed. -/
structure DatasetId where
  parts : List String
deriving Repr, DecidableEq

namespace DatasetId

def model (id : ModelId) : DatasetId where
  parts := id.ns :: id.path

/-- The dataset an external source reads. -/
def source (id : SourceId) : DatasetId where
  parts := id.parts

def name (id : DatasetId) : String :=
  ".".intercalate id.parts

def uri (id : DatasetId) : String :=
  "dataset://" ++ "/".intercalate id.parts

end DatasetId

/-- Where a dataset's data comes from. -/
inductive DatasetKind where
  | model
  | source
  | seed
  | external
deriving Repr, DecidableEq

def DatasetKind.asStr : DatasetKind → String
  | model => "model"
  | source => "source"
  | seed => "seed"
  | external => "external"

/-- A column within a dataset. -/
structure DatasetColumn where
  dataset : DatasetId
  name : String
deriving Repr, DecidableEq

inductive LineageNode where
  | model (id : ModelId)
  | dataset (id : DatasetId)
  | column (column : DatasetColumn)
  | test (id : String)

namespace LineageNode

/-- Nodes compare by variant and then by identity. -/
def sortKey : LineageNode → Lex (Nat × Lex (List String × String))
  | model id => toLex (0, toLex (id.ns :: id.path, ""))
  | dataset id => toLex (1, toLex (id.parts, ""))
  | column c => toLex (2, toLex (c.dataset.parts, c.name))
  | test id => toLex (3, toLex ([], id))

theorem sortKey_injective : Function.Injective sortKey := by
  intro a b h
  cases a with
  | model id =>
    cases b with
    | model id' =>
      simp only [sortKey, EmbeddingLike.apply_eq_iff_eq, Prod.mk.injEq, List.cons.injEq] at h
      exact congrArg model (ModelId.ext h.2.1.1 h.2.1.2)
    | _ => simp [sortKey] at h
  | dataset id =>
    cases b with
    | dataset id' =>
      obtain ⟨parts⟩ := id
      obtain ⟨parts'⟩ := id'
      simpa [sortKey] using h
    | _ => simp [sortKey] at h
  | column c =>
    cases b with
    | column c' =>
      obtain ⟨⟨parts⟩, name⟩ := c
      obtain ⟨⟨parts'⟩, name'⟩ := c'
      simpa [sortKey] using h
    | _ => simp [sortKey] at h
  | test id =>
    cases b with
    | test id' => simpa [sortKey] using h
    | _ => simp [sortKey] at h

instance : LinearOrder LineageNode :=
  LinearOrder.lift' sortKey sortKey_injective

def uri : LineageNode → String
  | model id => "model://" ++ id.ns ++ "/" ++ "/".intercalate id.path
  | dataset id => id.uri
  | column c => c.dataset.uri ++ "#" ++ c.name
  | test id => "test://" ++ String.ofList (id.toList.map fun c => if c = '.' then '/' else c)

/-- The kind tag for serialisation and display. -/
def kind : LineageNode → String
  | model _ => "model"
  | dataset _ => "dataset"
  | column _ => "column"
  | test _ => "test"

/-- `node_name` of the document. -/
def name : LineageNode → String
  | model id => id.logicalName
  | dataset id => id.name
  | column c => c.name
  | test id => id

end LineageNode

/-! ## Metadata -/

/-- Whether an input column contributes its values or only influences rows. -/
inductive Directness where
  | direct
  | indirect
deriving Repr, DecidableEq

/-- How an input column is transformed on its way into an output column. -/
inductive Transformation where
  | identity
  | transformation
  | aggregation
  | join
  | filter
  | groupBy
  | sort
  | window
  | conditional
deriving Repr, DecidableEq

/-- Confidence in a lineage claim. -/
inductive LineageConfidence where
  | exact
  | inferred
  | declared
  | runtime
  | unknown
deriving Repr, DecidableEq

/-- What kind of relationship an edge records. -/
inductive LineageEdgeKind where
  | input
  | output
  | derives
  | contains
  | tests
deriving Repr, DecidableEq

/-- The name of a variant in the document. -/
def Directness.asStr : Directness → String
  | direct => "direct"
  | indirect => "indirect"

def Transformation.asStr : Transformation → String
  | identity => "identity"
  | transformation => "transformation"
  | aggregation => "aggregation"
  | join => "join"
  | filter => "filter"
  | groupBy => "group_by"
  | sort => "sort"
  | window => "window"
  | conditional => "conditional"

def LineageConfidence.asStr : LineageConfidence → String
  | exact => "exact"
  | inferred => "inferred"
  | declared => "declared"
  | runtime => "runtime"
  | unknown => "unknown"

def LineageEdgeKind.asStr : LineageEdgeKind → String
  | input => "input"
  | output => "output"
  | derives => "derives"
  | contains => "contains"
  | tests => "tests"

/-- Optional metadata carried by a node. -/
structure NodeMeta where
  path : Option String
  version : Option String
  datasetKind : Option DatasetKind
  target : Option String
  dataType : Option String
  nullability : Option String
  confidence : Option LineageConfidence
  generated : Bool
  materialization : Option String
  workflow : Option String
deriving Repr, DecidableEq

namespace NodeMeta

def empty : NodeMeta where
  path := none
  version := none
  datasetKind := none
  target := none
  dataType := none
  nullability := none
  confidence := none
  generated := false
  materialization := none
  workflow := none

/-- What a later pass knows takes precedence. -/
def merge (m other : NodeMeta) : NodeMeta where
  path := other.path.or m.path
  version := other.version.or m.version
  datasetKind := other.datasetKind.or m.datasetKind
  target := other.target.or m.target
  dataType := other.dataType.or m.dataType
  nullability := other.nullability.or m.nullability
  confidence := other.confidence.or m.confidence
  generated := m.generated || other.generated
  materialization := other.materialization.or m.materialization
  workflow := other.workflow.or m.workflow

end NodeMeta

/-- An edge.  Only column-level `derives` edges carry more than their kind. -/
structure LineageEdge where
  kind : LineageEdgeKind
  directness : Option Directness
  transformation : Option Transformation
  confidence : Option LineageConfidence
  expression : Option String
deriving Repr, DecidableEq

/-- An edge that records its kind alone. -/
def LineageEdge.plain (kind : LineageEdgeKind) : LineageEdge where
  kind := kind
  directness := none
  transformation := none
  confidence := none
  expression := none

/-! ## Graphs -/

/-- The nodes in their order with their metadata, and the edges between them in the order of
insertion. -/
structure LineageGraph where
  nodes : List (LineageNode × NodeMeta)
  nodes_sorted : (nodes.map Prod.fst).Pairwise (· < ·)
  edges : List (LineageNode × LineageNode × LineageEdge)
  edges_nodup : edges.Nodup
  endpoints : ∀ edge ∈ edges, edge.1 ∈ nodes.map Prod.fst ∧ edge.2.1 ∈ nodes.map Prod.fst

namespace LineageGraph

variable {nodes : List (LineageNode × NodeMeta)}

def empty : LineageGraph where
  nodes := []
  nodes_sorted := .nil
  edges := []
  edges_nodup := .nil
  endpoints := by simp

/-- Insert a node at its place, or merge its metadata. -/
def insertNode (node : LineageNode) (data : NodeMeta) :
    List (LineageNode × NodeMeta) → List (LineageNode × NodeMeta)
  | [] => [(node, data)]
  | (n, m) :: rest =>
    if node < n then (node, data) :: (n, m) :: rest
    else if node = n then (n, m.merge data) :: rest
    else (n, m) :: insertNode node data rest

theorem mem_keys_insertNode {node k : LineageNode} {data : NodeMeta} :
    k ∈ (insertNode node data nodes).map Prod.fst ↔ k = node ∨ k ∈ nodes.map Prod.fst := by
  induction nodes with
  | nil => simp [insertNode]
  | cons row rest ih =>
    obtain ⟨n, m⟩ := row
    rw [insertNode]
    split_ifs with hlt heq
    · simp
    · subst heq
      simp
    · rw [List.map_cons, List.mem_cons, ih, List.map_cons, List.mem_cons]
      exact or_left_comm

theorem sorted_insertNode (node : LineageNode) (data : NodeMeta)
    (h : (nodes.map Prod.fst).Pairwise (· < ·)) :
    ((insertNode node data nodes).map Prod.fst).Pairwise (· < ·) := by
  induction nodes with
  | nil => simp [insertNode]
  | cons row rest ih =>
    obtain ⟨n, m⟩ := row
    rw [List.map_cons, List.pairwise_cons] at h
    rw [insertNode]
    split_ifs with hlt heq
    · simp only [List.map_cons, List.pairwise_cons, List.mem_cons, forall_eq_or_imp]
      exact ⟨⟨hlt, fun k hk => hlt.trans (h.1 k hk)⟩, h⟩
    · exact List.pairwise_cons.2 h
    · have hgt : n < node := lt_of_le_of_ne (not_lt.1 hlt) fun hn => heq hn.symm
      refine List.pairwise_cons.2 ⟨fun k hk => ?_, ih h.2⟩
      rcases mem_keys_insertNode.1 hk with rfl | hk
      · exact hgt
      · exact h.1 k hk

/-- Create a node, or add to what is known about it. -/
def ensureNode (graph : LineageGraph) (node : LineageNode) (data : NodeMeta) : LineageGraph where
  nodes := insertNode node data graph.nodes
  nodes_sorted := sorted_insertNode node data graph.nodes_sorted
  edges := graph.edges
  edges_nodup := graph.edges_nodup
  endpoints edge hedge := by
    obtain ⟨hfrom, hto⟩ := graph.endpoints edge hedge
    exact ⟨mem_keys_insertNode.2 (.inr hfrom), mem_keys_insertNode.2 (.inr hto)⟩

/-- Add an edge between known nodes, unless the same edge is there. -/
def addEdge (graph : LineageGraph) (origin target : LineageNode) (edge : LineageEdge) :
    LineageGraph :=
  if h : (origin ∈ graph.nodes.map Prod.fst ∧ target ∈ graph.nodes.map Prod.fst) ∧
      (origin, target, edge) ∉ graph.edges then
    { graph with
      edges := graph.edges ++ [(origin, target, edge)]
      edges_nodup := by
        rw [List.nodup_append]
        refine ⟨graph.edges_nodup, List.nodup_singleton _, fun a ha b hb => ?_⟩
        rintro rfl
        exact h.2 (List.mem_singleton.1 hb ▸ ha)
      endpoints := by
        intro e he
        rcases List.mem_append.1 he with he | he
        · exact graph.endpoints e he
        · rw [List.mem_singleton.1 he]
          exact h.1 }
  else graph

end LineageGraph

/-! ## Building the graph -/

/-- A reference to an upstream relation. -/
inductive RelationRef where
  | model (id : ModelId)
  | source (id : SourceId)
deriving DecidableEq

/-- The dataset behind a relation reference. -/
def DatasetId.relation : RelationRef → DatasetId
  | .model id => .model id
  | .source id => .source id

/-- One upstream column an output column draws from. -/
structure ColumnInput where
  relation : RelationRef
  column : String
  directness : Directness
  transformation : Transformation
  confidence : LineageConfidence
  expression : Option String

def LineageEdge.fromInput (input : ColumnInput) : LineageEdge where
  kind := .derives
  directness := some input.directness
  transformation := some input.transformation
  confidence := some input.confidence
  expression := input.expression

/-- A column produced by a model, with its type as displayed. -/
structure OutputColumn where
  name : String
  dataType : String
  nullability : String
  inputs : List ColumnInput
  confidence : LineageConfidence

/-- A seed as the lineage reads it. -/
structure LineageSeed where
  name : String
  path : String

/-- A model as the lineage reads it. -/
structure LineageModel where
  id : ModelId
  path : Option String
  version : String
  materialization : Materialization
  workflow : Option String
  target : Relation
  dependencies : List Dependency
  columns : List OutputColumn

/-- A test as the lineage reads it. -/
structure LineageTest where
  id : String
  path : Option String
  generated : Bool
  targets : List ModelId
  sources : List SourceId

/-- What the lineage reads of a compilation. -/
structure CompiledLineage where
  models : List LineageModel
  seeds : List LineageSeed
  tests : List LineageTest

/-- `path_display`: slashes on every platform. -/
def displayPath (path : String) : String :=
  String.ofList (path.toList.map fun c => if c = '\\' then '/' else c)

/-- Whether a source relation is the table a seed loads into. -/
def seedMatches (source : SourceId) (seed : LineageSeed) : Bool :=
  decide (source.logicalName = seed.name) ||
    ('.' :: seed.name.toList).isSuffixOf source.logicalName.toList

namespace CompiledLineage

/-- Every source that a model names, once and in order. -/
def sources (compilation : CompiledLineage) : List SourceId :=
  ((compilation.models.flatMap fun model => model.dependencies.filterMap fun
    | .model _ => none
    | .source id => some id).dedup).insertionSort fun a b => a.parts ≤ b.parts

end CompiledLineage

namespace LineageGraph

/-- A model node, its output dataset and the edge between them. -/
def addModel (graph : LineageGraph) (model : LineageModel) : LineageGraph :=
  let materialization := some model.materialization.asStr
  let output := DatasetId.model model.id
  ((graph.ensureNode (.model model.id)
      { NodeMeta.empty with
        path := model.path.map displayPath
        version := some model.version
        materialization
        workflow := model.workflow }).ensureNode (.dataset output)
      { NodeMeta.empty with
        datasetKind := some .model
        target := if model.materialization = .ephemeral then none else some model.target.display
        materialization }).addEdge (.model model.id) (.dataset output) (.plain .output)

/-- A source dataset, or the dataset of the first seed that loads into it. -/
def addSource (seeds : List LineageSeed) (graph : LineageGraph) (source : SourceId) :
    LineageGraph :=
  graph.ensureNode (.dataset (.source source)) <|
    match seeds.find? fun seed => seedMatches source seed with
    | some seed =>
      { NodeMeta.empty with datasetKind := some .seed, path := some (displayPath seed.path) }
    | none => { NodeMeta.empty with datasetKind := some .source }

/-- The edges of one dependency: the input edge and the rollups over it. -/
def addDependency (model : LineageModel) (graph : LineageGraph) (dependency : Dependency) :
    LineageGraph :=
  let output := DatasetId.model model.id
  match dependency with
  | .model id =>
    ((graph.addEdge (.dataset (.model id)) (.model model.id) (.plain .input)).addEdge
      (.model id) (.model model.id) (.plain .derives)).addEdge
        (.dataset (.model id)) (.dataset output) (.plain .derives)
  | .source id =>
    (graph.addEdge (.dataset (.source id)) (.model model.id) (.plain .input)).addEdge
      (.dataset (.source id)) (.dataset output) (.plain .derives)

def addDependencies (graph : LineageGraph) (model : LineageModel) : LineageGraph :=
  model.dependencies.foldl (addDependency model) graph

/-- A column input: a source column is created on first reference. -/
def addInput (target : LineageNode) (graph : LineageGraph) (input : ColumnInput) :
    LineageGraph :=
  let dataset := DatasetId.relation input.relation
  let column := LineageNode.column { dataset, name := input.column }
  ((graph.ensureNode column .empty).addEdge (.dataset dataset) column (.plain .contains)).addEdge
    column target (.fromInput input)

def addColumn (model : LineageModel) (graph : LineageGraph) (column : OutputColumn) :
    LineageGraph :=
  let output := DatasetId.model model.id
  let target := LineageNode.column { dataset := output, name := column.name }
  column.inputs.foldl (addInput target)
    ((graph.ensureNode target
      { NodeMeta.empty with
        dataType := some column.dataType
        nullability := some column.nullability
        confidence := some column.confidence }).addEdge (.dataset output) target
          (.plain .contains))

def addColumns (graph : LineageGraph) (model : LineageModel) : LineageGraph :=
  model.columns.foldl (addColumn model) graph

/-- A test and the datasets it asserts on. -/
def addTest (graph : LineageGraph) (test : LineageTest) : LineageGraph :=
  let node := LineageNode.test test.id
  let graph := graph.ensureNode node
    { NodeMeta.empty with path := test.path.map displayPath, generated := test.generated }
  let graph := test.targets.foldl
    (fun graph target => graph.addEdge (.dataset (.model target)) node (.plain .tests)) graph
  test.sources.foldl
    (fun graph source => graph.addEdge (.dataset (.source source)) node (.plain .tests)) graph

def build (compilation : CompiledLineage) : LineageGraph :=
  let seeds := compilation.seeds.insertionSort fun a b => a.name ≤ b.name
  let graph := compilation.models.foldl addModel empty
  let graph := compilation.sources.foldl (addSource seeds) graph
  let graph := compilation.models.foldl addDependencies graph
  let graph := compilation.models.foldl addColumns graph
  compilation.tests.foldl addTest graph

end LineageGraph

/-! ## Documents -/

/-- An optional member, left out when there is no value. -/
def optionalMember (name : String) (value : Option String) : List (String × Scalar) :=
  (value.map fun s => (name, Scalar.string s)).toList

theorem lookup_optionalMember (key name : String) (value : Option String) :
    (optionalMember name value).lookup key =
      if key = name then value.map Scalar.string else none := by
  cases value with
  | none => simp [optionalMember]
  | some s =>
    by_cases h : key = name
    · simp [optionalMember, h]
    · simp [optionalMember, List.lookup_cons, beq_false_of_ne h, h]

/-- A node of the document. -/
structure NodeJson where
  uri : String
  kind : String
  name : String
  data : NodeMeta
deriving Repr, DecidableEq

/-- An edge of the document. -/
structure EdgeJson where
  origin : String
  target : String
  edge : LineageEdge
deriving Repr, DecidableEq

structure LineageDocument where
  nodes : List NodeJson
  edges : List EdgeJson
deriving Repr, DecidableEq

def NodeMeta.members (m : NodeMeta) : List (String × Scalar) :=
  optionalMember "path" m.path ++ optionalMember "version" m.version ++
    optionalMember "dataset_kind" (m.datasetKind.map DatasetKind.asStr) ++
    optionalMember "target" m.target ++ optionalMember "data_type" m.dataType ++
    optionalMember "nullability" m.nullability ++
    optionalMember "confidence" (m.confidence.map LineageConfidence.asStr) ++
    (if m.generated then [("generated", .bool true)] else []) ++
    optionalMember "materialization" m.materialization ++ optionalMember "workflow" m.workflow

def NodeJson.members (node : NodeJson) : List (String × Scalar) :=
  [("uri", .string node.uri), ("kind", .string node.kind), ("name", .string node.name)] ++
    node.data.members

def EdgeJson.members (e : EdgeJson) : List (String × Scalar) :=
  [("from", .string e.origin), ("to", .string e.target), ("kind", .string e.edge.kind.asStr)] ++
    (optionalMember "directness" (e.edge.directness.map Directness.asStr) ++
      optionalMember "transformation" (e.edge.transformation.map Transformation.asStr) ++
      optionalMember "confidence" (e.edge.confidence.map LineageConfidence.asStr) ++
      optionalMember "expression" e.edge.expression)

def LineageDocument.text (document : LineageDocument) : String :=
  String.ofList ("\x7b\"nodes\":".toList ++ (objects (document.nodes.map NodeJson.members) ++
    (",\"edges\":".toList ++ (objects (document.edges.map EdgeJson.members) ++ ['}']))))

theorem Directness.asStr_injective : Function.Injective asStr := by
  intro a b h
  cases a <;> cases b <;> first | rfl | simp [asStr] at h

theorem Transformation.asStr_injective : Function.Injective asStr := by
  intro a b h
  cases a <;> cases b <;> first | rfl | simp [asStr] at h

theorem LineageConfidence.asStr_injective : Function.Injective asStr := by
  intro a b h
  cases a <;> cases b <;> first | rfl | simp [asStr] at h

theorem LineageEdgeKind.asStr_injective : Function.Injective asStr := by
  intro a b h
  cases a <;> cases b <;> first | rfl | simp [asStr] at h

theorem DatasetKind.asStr_injective : Function.Injective asStr := by
  intro a b h
  cases a <;> cases b <;> first | rfl | simp [asStr] at h

theorem string_injective : Function.Injective Scalar.string := fun _ _ h => by
  simpa using h

theorem NodeMeta.lookup_members (m : NodeMeta) :
    m.members.lookup "path" = m.path.map .string ∧
      m.members.lookup "version" = m.version.map .string ∧
      m.members.lookup "dataset_kind" = (m.datasetKind.map DatasetKind.asStr).map .string ∧
      m.members.lookup "target" = m.target.map .string ∧
      m.members.lookup "data_type" = m.dataType.map .string ∧
      m.members.lookup "nullability" = m.nullability.map .string ∧
      m.members.lookup "confidence" =
        (m.confidence.map LineageConfidence.asStr).map .string ∧
      m.members.lookup "generated" = (if m.generated then some (.bool true) else none) ∧
      m.members.lookup "materialization" = m.materialization.map .string ∧
      m.members.lookup "workflow" = m.workflow.map .string := by
  cases hgenerated : m.generated <;>
    simp [members, hgenerated, List.lookup_append, lookup_optionalMember, List.lookup_cons]

theorem NodeMeta.members_injective : Function.Injective members := by
  intro a b h
  have hstring := Option.map_injective string_injective
  have ha := a.lookup_members
  rw [h] at ha
  obtain ⟨apath, aversion, akind, atarget, atype, anull, aconfidence, agenerated, amaterialization,
    aworkflow⟩ := ha
  obtain ⟨bpath, bversion, bkind, btarget, btype, bnull, bconfidence, bgenerated, bmaterialization,
    bworkflow⟩ := b.lookup_members
  have hgenerated : a.generated = b.generated := by
    have hboth := agenerated.symm.trans bgenerated
    cases ha : a.generated <;> cases hb : b.generated <;> simp [ha, hb] at hboth ⊢
  obtain ⟨path, version, kind, target, type, null, confidence, generated, materialization,
    workflow⟩ := a
  simp only at *
  obtain rfl := hstring (apath.symm.trans bpath)
  obtain rfl := hstring (aversion.symm.trans bversion)
  obtain rfl := Option.map_injective DatasetKind.asStr_injective
    (hstring (akind.symm.trans bkind))
  obtain rfl := hstring (atarget.symm.trans btarget)
  obtain rfl := hstring (atype.symm.trans btype)
  obtain rfl := hstring (anull.symm.trans bnull)
  obtain rfl := Option.map_injective LineageConfidence.asStr_injective
    (hstring (aconfidence.symm.trans bconfidence))
  obtain rfl := hgenerated
  obtain rfl := hstring (amaterialization.symm.trans bmaterialization)
  obtain rfl := hstring (aworkflow.symm.trans bworkflow)
  rfl

theorem NodeJson.members_injective : Function.Injective members := by
  intro a b h
  obtain ⟨uri, kind, name, data⟩ := a
  obtain ⟨uri', kind', name', data'⟩ := b
  simp only [members, List.cons_append, List.nil_append, List.cons.injEq, Prod.mk.injEq,
    Scalar.string.injEq, true_and] at h
  obtain ⟨rfl, rfl, rfl, hdata⟩ := h
  obtain rfl := NodeMeta.members_injective hdata
  rfl

theorem EdgeJson.lookup_members (e : EdgeJson) :
    e.members.lookup "from" = some (.string e.origin) ∧
      e.members.lookup "to" = some (.string e.target) ∧
      e.members.lookup "kind" = some (.string e.edge.kind.asStr) ∧
      e.members.lookup "directness" = (e.edge.directness.map Directness.asStr).map .string ∧
      e.members.lookup "transformation" =
        (e.edge.transformation.map Transformation.asStr).map .string ∧
      e.members.lookup "confidence" =
        (e.edge.confidence.map LineageConfidence.asStr).map .string ∧
      e.members.lookup "expression" = e.edge.expression.map .string := by
  simp [members, List.lookup_append, lookup_optionalMember, List.lookup_cons]

theorem EdgeJson.members_injective : Function.Injective members := by
  intro a b h
  have hstring := Option.map_injective string_injective
  have ha := a.lookup_members
  rw [h] at ha
  obtain ⟨aorigin, atarget, akind, adirectness, atransformation, aconfidence, aexpression⟩ := ha
  obtain ⟨borigin, btarget, bkind, bdirectness, btransformation, bconfidence, bexpression⟩ :=
    b.lookup_members
  obtain ⟨origin, target, ⟨kind, directness, transformation, confidence, expression⟩⟩ := a
  obtain ⟨origin', target', ⟨kind', directness', transformation', confidence', expression'⟩⟩ := b
  simp only at *
  obtain rfl : origin = origin' := by simpa using aorigin.symm.trans borigin
  obtain rfl : target = target' := by simpa using atarget.symm.trans btarget
  obtain rfl : kind = kind' :=
    LineageEdgeKind.asStr_injective (by simpa using akind.symm.trans bkind)
  obtain rfl := Option.map_injective Directness.asStr_injective
    (hstring (adirectness.symm.trans bdirectness))
  obtain rfl := Option.map_injective Transformation.asStr_injective
    (hstring (atransformation.symm.trans btransformation))
  obtain rfl := Option.map_injective LineageConfidence.asStr_injective
    (hstring (aconfidence.symm.trans bconfidence))
  obtain rfl := hstring (aexpression.symm.trans bexpression)
  rfl

theorem LineageDocument.text_injective : Function.Injective text := by
  intro a b h
  have hlist := String.ofList_injective h
  have hnodes := List.append_cancel_left hlist
  obtain ⟨hnodes, hrest⟩ := Library.prefixCode_objects _ _ _ _ hnodes
  obtain ⟨hedges, -⟩ := Library.prefixCode_objects _ _ _ _ (List.append_cancel_left hrest)
  obtain ⟨nodes, edges⟩ := a
  obtain ⟨nodes', edges'⟩ := b
  obtain rfl : nodes = nodes' := List.map_injective_iff.2 NodeJson.members_injective hnodes
  obtain rfl : edges = edges' := List.map_injective_iff.2 EdgeJson.members_injective hedges
  rfl

/-! ## The order of parallel edges -/

def Directness.rank : Directness → Nat
  | direct => 0
  | indirect => 1

def Transformation.rank : Transformation → Nat
  | identity => 0
  | transformation => 1
  | aggregation => 2
  | join => 3
  | filter => 4
  | groupBy => 5
  | sort => 6
  | window => 7
  | conditional => 8

def LineageConfidence.rank : LineageConfidence → Nat
  | exact => 0
  | inferred => 1
  | declared => 2
  | runtime => 3
  | unknown => 4

def LineageEdgeKind.rank : LineageEdgeKind → Nat
  | input => 0
  | output => 1
  | derives => 2
  | contains => 3
  | tests => 4

theorem Directness.rank_injective : Function.Injective rank := by
  intro a b h
  cases a <;> cases b <;> first | rfl | simp [rank] at h

theorem Transformation.rank_injective : Function.Injective rank := by
  intro a b h
  cases a <;> cases b <;> first | rfl | simp [rank] at h

theorem LineageConfidence.rank_injective : Function.Injective rank := by
  intro a b h
  cases a <;> cases b <;> first | rfl | simp [rank] at h

theorem LineageEdgeKind.rank_injective : Function.Injective rank := by
  intro a b h
  cases a <;> cases b <;> first | rfl | simp [rank] at h

/-- A value that may be absent; absence comes first. -/
def absentFirst {α : Type*} (value : Option α) : WithBot α :=
  value

abbrev MetadataKey :=
  Lex (WithBot Nat × Lex (WithBot Nat × Lex (WithBot Nat × WithBot String)))

/-- `edge_sort_key`: an edge's metadata within its kind. -/
def LineageEdge.sortKey (edge : LineageEdge) : MetadataKey :=
  toLex (absentFirst (edge.directness.map Directness.rank),
    toLex (absentFirst (edge.transformation.map Transformation.rank),
      toLex (absentFirst (edge.confidence.map LineageConfidence.rank),
        absentFirst edge.expression)))

theorem LineageEdge.eq_of_sortKey_eq {a b : LineageEdge} (hkind : a.kind = b.kind)
    (h : a.sortKey = b.sortKey) : a = b := by
  obtain ⟨kind, directness, transformation, confidence, expression⟩ := a
  obtain ⟨kind', directness', transformation', confidence', expression'⟩ := b
  obtain rfl : kind = kind' := hkind
  obtain ⟨hdirectness, h⟩ := Prod.mk.inj (toLex.injective h)
  obtain ⟨htransformation, h⟩ := Prod.mk.inj (toLex.injective h)
  obtain ⟨hconfidence, hexpression⟩ := Prod.mk.inj (toLex.injective h)
  obtain rfl : expression = expression' := hexpression
  obtain rfl := Option.map_injective Directness.rank_injective hdirectness
  obtain rfl := Option.map_injective Transformation.rank_injective htransformation
  obtain rfl := Option.map_injective LineageConfidence.rank_injective hconfidence
  rfl

/-- The full sort key of the fingerprint. -/
def EdgeJson.sortKey (e : EdgeJson) : Lex (String × Lex (String × Lex (Nat × MetadataKey))) :=
  toLex (e.origin, toLex (e.target, toLex (e.edge.kind.rank, e.edge.sortKey)))

theorem EdgeJson.sortKey_injective : Function.Injective sortKey := by
  intro a b h
  simp only [sortKey, EmbeddingLike.apply_eq_iff_eq, Prod.mk.injEq] at h
  obtain ⟨horigin, htarget, hkind, hmetadata⟩ := h
  obtain ⟨origin, target, edge⟩ := a
  obtain ⟨origin', target', edge'⟩ := b
  obtain rfl : origin = origin' := horigin
  obtain rfl : target = target' := htarget
  obtain rfl := LineageEdge.eq_of_sortKey_eq (LineageEdgeKind.rank_injective hkind) hmetadata
  rfl

/-! ## Documents and fingerprints -/

namespace LineageGraph

variable {a b : LineageGraph}

def nodeRows (graph : LineageGraph) : List NodeJson :=
  graph.nodes.map fun row =>
    { uri := row.1.uri, kind := row.1.kind, name := row.1.name, data := row.2 }

/-- The rows of the edges, in the order of insertion. -/
def edgeRows (graph : LineageGraph) : List EdgeJson :=
  graph.edges.map fun row => { origin := row.1.uri, target := row.2.1.uri, edge := row.2.2 }

/-- A deterministically ordered view of the graph. -/
def document (graph : LineageGraph) : LineageDocument where
  nodes := graph.nodeRows
  edges := graph.edgeRows.insertionSort fun a b =>
    toLex (a.origin, a.target) ≤ toLex (b.origin, b.target)

/-- The document with its edges in canonical order. -/
def canonical (graph : LineageGraph) : LineageDocument :=
  { graph.document with
    edges := graph.document.edges.insertionSort fun a b => a.sortKey ≤ b.sortKey }

/-- A content fingerprint of the whole graph. -/
def fingerprint [Sha256] (graph : LineageGraph) : String :=
  Sha256.hex graph.canonical.text

theorem canonical_eq_iff :
    a.canonical = b.canonical ↔ a.nodeRows = b.nodeRows ∧ a.edgeRows.Perm b.edgeRows := by
  simp only [canonical, document, LineageDocument.mk.injEq,
    Library.insertionSort_eq_iff EdgeJson.sortKey_injective]
  constructor
  · rintro ⟨hnodes, hedges⟩
    exact ⟨hnodes, (List.perm_insertionSort _ _).symm.trans
      (hedges.trans (List.perm_insertionSort _ _))⟩
  · rintro ⟨hnodes, hedges⟩
    exact ⟨hnodes, (List.perm_insertionSort _ _).trans
      (hedges.trans (List.perm_insertionSort _ _).symm)⟩

theorem fingerprint_congr [Sha256] {a b : LineageGraph} (h : a.canonical = b.canonical) :
    a.fingerprint = b.fingerprint := by
  rw [fingerprint, fingerprint, h]

/-- Without collisions of the digest, equal fingerprints are equal rows. -/
theorem fingerprint_eq_iff [Sha256] (hsha : Function.Injective Sha256.hex) :
    a.fingerprint = b.fingerprint ↔ a.nodeRows = b.nodeRows ∧ a.edgeRows.Perm b.edgeRows := by
  rw [← canonical_eq_iff]
  exact (hsha.comp LineageDocument.text_injective).eq_iff

end LineageGraph

end PhloTransform.Core
