import PhloTransform.Core.LineageInputs
import PhloTransform.Library.JoinedNames
import PhloTransform.OpenLineage.Export

/-!
# What an export keeps of a lineage graph

An export is faithful when its events are those of the models and of the datasets, each under a
name of its own, and when it shows what each model reads and what each output column derives from.
Datasets are exported under dotted names, which do not tell the parts of a quoted name.

Main results:

- Theorem `identity_injective`: the name and the URI of a dataset tell its parts.
- Theorem `grouped_inputFields`: input fields under names that tell the datasets apart.
-/

namespace PhloTransform.OpenLineage

open Core (ColumnInput CompiledLineage DatasetColumn DatasetId Dependency LineageEdge LineageGraph
  LineageModel LineageNode ModelId OutputColumn ParsedProject RelationRef)
open Sql (RelationName)
open Library (cons_intercalate find?_collected gathered gathered_comp group
  spelled_inj_of_ne)

/-! ## Faithful exports -/

/-- The datasets of a compilation: what its models produce and the sources that they read. -/
def datasets (c : CompiledLineage) : Set DatasetId :=
  {id | (∃ m ∈ c.models, id = .model m.id) ∨ ∃ source ∈ c.sources, id = .source source}

/-- What an exported dataset is known by. -/
def Dataset.identity (dataset : Dataset) : String × String :=
  (dataset.name, dataset.facets.phloDataset.body.uri)

/-- What the export of a dataset is known by. -/
def identity (id : DatasetId) : String × String :=
  (id.name, id.uri)

/-- The exported input fields of an output column. -/
def fieldsOf (columnLineage : Option (Facet ColumnLineage)) (column : String) : List InputField :=
  ((columnLineage.bind fun facet => facet.body.find? fun field => field.1 = column).map
    Prod.snd).getD []

/-- The edges by which a column derives from another one. -/
def derivations (graph : LineageGraph) (origin column : DatasetColumn) : List LineageEdge :=
  (graph.edges.filter fun row =>
    row.1 = .column origin ∧ row.2.1 = .column column ∧ row.2.2.kind = .derives).map (·.2.2)

/-- The fields are those of the columns that a column derives from, one for each of them, with a
record for each edge. -/
def Grouped (graph : LineageGraph) (column : DatasetColumn) (fields : List InputField) : Prop :=
  ∃ origins : List DatasetColumn, origins.Nodup ∧
    (∀ origin, origin ∈ origins ↔ derivations graph origin column ≠ []) ∧
    List.Forall₂ (fun origin field => field.name = origin.dataset.name ∧
      field.field = origin.name ∧ field.transformations.Perm
        ((derivations graph origin column).map transformationRecord)) origins fields

/-- The export shows the compilation. -/
structure Faithful (exporter : Exporter) (c : CompiledLineage) : Prop where
  jobs : (exporter.document.jobs.map (·.job.name)).Perm (c.models.map (·.id.logicalName))
  jobNames : (exporter.document.jobs.map (·.job.name)).Nodup
  datasets : ∃ ids : List DatasetId, ids.Nodup ∧ (∀ id, id ∈ ids ↔ id ∈ datasets c) ∧
    (exporter.document.datasets.map (·.dataset.identity)).Perm (ids.map identity)
  datasetNames : (exporter.document.datasets.map (·.dataset.name)).Nodup
  inputs : ∀ m ∈ c.models, ∀ event ∈ exporter.document.jobs,
    event.job.name = m.id.logicalName →
      ∃ ids : List DatasetId, ids.Nodup ∧
        (∀ id, id ∈ ids ↔ ∃ dependency ∈ m.dependencies, dependency.dataset = id) ∧
        event.inputs.map Dataset.identity = ids.map identity
  output : ∀ m ∈ c.models, ∀ event ∈ exporter.document.jobs,
    event.job.name = m.id.logicalName →
      event.outputs.map Dataset.identity = [identity (.model m.id)]
  columns : ∀ m ∈ c.models, ∀ column ∈ m.columns, ∀ event ∈ exporter.document.jobs,
    event.job.name = m.id.logicalName → ∀ output ∈ event.outputs,
      Grouped exporter.graph ⟨.model m.id, column.name⟩
        (fieldsOf output.facets.columnLineage column.name)
  inputEvents : ∀ event ∈ exporter.document.jobs, ∀ dataset ∈ event.inputs ++ event.outputs,
    ∃ other ∈ exporter.document.datasets, other.dataset.identity = dataset.identity
  originEvents : ∀ m ∈ c.models, ∀ column ∈ m.columns, ∀ origin,
    derivations exporter.graph origin ⟨.model m.id, column.name⟩ ≠ [] →
      ∃ other ∈ exporter.document.datasets, other.dataset.identity = identity origin.dataset

/-- No two datasets of the compilation have one dotted name. -/
def DistinctNames (c : CompiledLineage) : Prop :=
  Set.InjOn DatasetId.name (datasets c)

/-- Every recorded input is a column of a dataset of the compilation. -/
def KnownInputs (c : CompiledLineage) : Prop :=
  ∀ m ∈ c.models, ∀ column ∈ m.columns, ∀ input ∈ column.inputs,
    DatasetId.relation input.relation ∈ datasets c

/-! ## Names and URIs -/

theorem toList_name (id : DatasetId) :
    id.name.toList = List.intercalate ['.'] (id.parts.map String.toList) :=
  String.toList_intercalate

theorem toList_uri (id : DatasetId) :
    id.uri.toList = "dataset://".toList ++ List.intercalate ['/'] (id.parts.map String.toList) := by
  rw [DatasetId.uri, String.toList_append, String.toList_intercalate]
  rfl

theorem identity_injective {a b : DatasetId} (ha : a.parts ≠ []) (hb : b.parts ≠ [])
    (h : identity a = identity b) : a = b := by
  obtain ⟨hname, huri⟩ := Prod.ext_iff.1 h
  have hdots := congrArg String.toList hname
  have hslashes := congrArg String.toList huri
  change a.name.toList = b.name.toList at hdots
  change a.uri.toList = b.uri.toList at hslashes
  rw [toList_name, toList_name, ← List.cons_inj_right '.', cons_intercalate _ (by simpa using ha),
    cons_intercalate _ (by simpa using hb)] at hdots
  rw [toList_uri, toList_uri, List.append_right_inj, ← List.cons_inj_right '/',
    cons_intercalate _ (by simpa using ha), cons_intercalate _ (by simpa using hb)] at hslashes
  have hparts := spelled_inj_of_ne (by decide) hdots hslashes
  obtain ⟨parts⟩ := a
  obtain ⟨parts'⟩ := b
  exact congrArg DatasetId.mk (List.map_injective_iff.2 (fun _ _ => String.toList_injective) hparts)

/-! ## What the exporter reads -/

section Queries

variable {graph : LineageGraph}
variable {id : DatasetId} {column : DatasetColumn}
variable {origin : DatasetColumn}

theorem keys_rowsOf {α : Type} (select : LineageNode → Option α) :
    (rowsOf graph select).map Prod.fst = (graph.nodes.map Prod.fst).filterMap select := by
  rw [rowsOf, List.map_filterMap, List.filterMap_map]
  refine congrArg (List.filterMap · graph.nodes) (funext fun row => ?_)
  rw [Option.map_map]
  exact Option.map_id'

section Rows

variable {α : Type} {select : LineageNode → Option α} {node : α → LineageNode}
  (hselect : ∀ n a, select n = some a ↔ n = node a)

include hselect in
theorem nodup_rowsOf : ((rowsOf graph select).map Prod.fst).Nodup := by
  have hnodup : (graph.nodes.map Prod.fst).Nodup := graph.nodes_sorted.imp fun h => h.ne
  rw [keys_rowsOf]
  refine hnodup.filterMap fun n n' a ha ha' => ?_
  rw [(hselect n a).1 ha, (hselect n' a).1 ha']

include hselect in
theorem mem_rowsOf {a : α} :
    a ∈ (rowsOf graph select).map Prod.fst ↔ graph.Holds (.node (node a)) := by
  rw [keys_rowsOf, List.mem_filterMap]
  constructor
  · rintro ⟨n, hn, hsome⟩
    exact (hselect n a).1 hsome ▸ hn
  · exact fun h => ⟨node a, h, (hselect _ _).2 rfl⟩

end Rows

theorem model?_eq_some (n : LineageNode) (id : ModelId) : model? n = some id ↔ n = .model id := by
  cases n <;> simp [model?]

theorem dataset?_eq_some (n : LineageNode) (id : DatasetId) :
    dataset? n = some id ↔ n = .dataset id := by
  cases n <;> simp [dataset?]

theorem mem_inputDatasets {model : ModelId} :
    id ∈ inputDatasets graph model ↔
      ∃ edge, graph.Holds (.edge (.dataset id) (.model model) edge) ∧ edge.kind = .input := by
  simp only [inputDatasets, List.mem_insertionSort, List.mem_dedup, List.mem_filterMap,
    List.mem_reverse, LineageGraph.Holds]
  constructor
  · rintro ⟨⟨origin, target, edge⟩, hmem, hsome⟩
    cases origin with
    | dataset other =>
      obtain ⟨⟨rfl, hkind⟩, rfl⟩ : (target = .model model ∧ edge.kind = .input) ∧ other = id := by
        simpa using hsome
      exact ⟨edge, hmem, hkind⟩
    | _ => simp at hsome
  · rintro ⟨edge, hmem, hkind⟩
    exact ⟨_, hmem, by simp [hkind]⟩

theorem nodup_inputDatasets (model : ModelId) : (inputDatasets graph model).Nodup :=
  (List.perm_insertionSort _ _).nodup_iff.2 (List.nodup_dedup _)

theorem derivations_ne_nil :
    derivations graph origin column ≠ [] ↔
      ∃ edge, graph.Holds (.edge (.column origin) (.column column) edge) ∧
        edge.kind = .derives := by
  constructor
  · intro hne
    obtain ⟨edge, hedge⟩ := List.exists_mem_of_ne_nil _ hne
    obtain ⟨⟨start, target, edge⟩, hrow, rfl⟩ := List.mem_map.1 hedge
    obtain ⟨hmem, hends⟩ := List.mem_filter.1 hrow
    obtain ⟨rfl, rfl, hkind⟩ := of_decide_eq_true hends
    exact ⟨edge, hmem, hkind⟩
  · rintro ⟨edge, hedge, hkind⟩
    exact List.ne_nil_of_mem (List.mem_map_of_mem
      (List.mem_filter.2 ⟨hedge, decide_eq_true ⟨rfl, rfl, hkind⟩⟩))

theorem containment_eq_some {row : LineageNode × LineageNode × LineageEdge} :
    containment id row = some column ↔
      row.1 = .dataset id ∧ row.2.1 = .column column ∧ row.2.2.kind = .contains := by
  obtain ⟨origin, target, edge⟩ := row
  cases target with
  | column other =>
    simp only [containment, Option.ite_none_right_eq_some, LineageNode.column.injEq]
    constructor
    · rintro ⟨⟨horigin, hkind⟩, hother⟩
      exact ⟨horigin, Option.some.inj hother, hkind⟩
    · rintro ⟨horigin, rfl, hkind⟩
      exact ⟨⟨horigin, hkind⟩, rfl⟩
  | _ => simp [containment]

theorem mem_datasetColumns :
    column ∈ datasetColumns graph id ↔
      ∃ edge, graph.Holds (.edge (.dataset id) (.column column) edge) ∧ edge.kind = .contains := by
  simp only [datasetColumns, List.mem_insertionSort, List.mem_filterMap, List.mem_reverse,
    LineageGraph.Holds, containment_eq_some]
  constructor
  · rintro ⟨⟨_, _, edge⟩, hmem, rfl, rfl, hkind⟩
    exact ⟨edge, hmem, hkind⟩
  · rintro ⟨edge, hmem, hkind⟩
    exact ⟨_, hmem, rfl, rfl, hkind⟩

/-- The edges from one column among those that a column derives from. -/
theorem group_columnUpstream (graph : LineageGraph) (origin column : DatasetColumn) :
    ((group Prod.fst (columnUpstream graph column) origin).map Prod.snd).Perm
      (derivations graph origin column) := by
  have hupstream : (columnUpstream graph column).Perm
      (graph.edges.filterMap (derivation column)) :=
    (List.perm_insertionSort _ _).trans ((List.reverse_perm _).filterMap _)
  have hedges (edges : List (LineageNode × LineageNode × LineageEdge)) :
      (group Prod.fst (edges.filterMap (derivation column)) origin).map Prod.snd =
        (edges.filter fun row =>
          row.1 = .column origin ∧ row.2.1 = .column column ∧ row.2.2.kind = .derives).map
            (·.2.2) := by
    induction edges with
    | nil => rfl
    | cons row edges ih =>
      obtain ⟨start, target, edge⟩ := row
      unfold group at ih ⊢
      cases start with
      | column other =>
        by_cases hedge : target = .column column ∧ edge.kind = .derives
        · by_cases hother : other = origin
          · simp [derivation, hedge, hother, ih]
          · simp [derivation, hedge, hother, ih]
        · simp [derivation, hedge, ih]
      | _ =>
        rw [List.filterMap_cons_none rfl, ih, List.filter_cons_of_neg (by simp)]
  exact ((hupstream.filter _).map _).trans (.of_eq (hedges graph.edges))

theorem mem_columnUpstream :
    (∃ edge, (origin, edge) ∈ columnUpstream graph column) ↔
      derivations graph origin column ≠ [] := by
  have hgroup := group_columnUpstream graph origin column
  constructor
  · rintro ⟨edge, hedge⟩
    exact List.ne_nil_of_mem (hgroup.mem_iff.1
      (List.mem_map.2 ⟨(origin, edge), Library.mem_group.2 ⟨hedge, rfl⟩, rfl⟩))
  · intro hne
    obtain ⟨edge, hedge⟩ := List.exists_mem_of_ne_nil _ hne
    obtain ⟨⟨other, edge'⟩, hmem, rfl⟩ := List.mem_map.1 (hgroup.mem_iff.2 hedge)
    obtain ⟨hupstream, rfl⟩ := Library.mem_group.1 hmem
    exact ⟨edge', hupstream⟩

end Queries

/-! ## Column lineage -/

section Columns

variable {exporter : Exporter}

/-- Under names that tell the datasets apart, the input fields of a column are those of the
columns that it derives from. -/
theorem grouped_inputFields {column : DatasetColumn}
    (hnames : ∀ a b, derivations exporter.graph a column ≠ [] →
      derivations exporter.graph b column ≠ [] → a.dataset.name = b.dataset.name →
      a.dataset = b.dataset) : Grouped exporter.graph column (exporter.inputFields column) := by
  -- the groups under names are the groups under columns
  have hkeys : ∀ a ∈ columnUpstream exporter.graph column,
      ∀ b ∈ columnUpstream exporter.graph column,
        Exporter.fieldName a.1 = Exporter.fieldName b.1 → a.1 = b.1 := by
    rintro ⟨⟨dataset, name⟩, edge⟩ ha ⟨⟨dataset', name'⟩, edge'⟩ hb heq
    obtain ⟨hdataset, rfl⟩ := Prod.ext_iff.1 heq
    have hsame := hnames _ _ (mem_columnUpstream.1 ⟨edge, ha⟩) (mem_columnUpstream.1 ⟨edge', hb⟩)
      hdataset
    exact congrArg (DatasetColumn.mk · _) hsame
  obtain ⟨groups, hperm, hfields⟩ : ∃ groups : List (DatasetColumn × List TransformationRecord),
      groups.Perm (gathered Prod.fst (fun upstream => transformationRecord upstream.2)
        (columnUpstream exporter.graph column)) ∧
      exporter.inputFields column =
        groups.map fun group => exporter.inputField (Exporter.fieldName group.1, group.2) := by
    rw [Exporter.inputFields, gathered_comp (f := Exporter.fieldName) hkeys,
      List.map_map]
    have hsort := List.map_insertionSort
      (fun a b : DatasetColumn × List TransformationRecord =>
        toLex (Exporter.fieldName a.1) ≤ toLex (Exporter.fieldName b.1))
      (fun a b : InputField => toLex (a.name, a.field) ≤ toLex (b.name, b.field))
      (fun group => exporter.inputField (Exporter.fieldName group.1, group.2))
      (gathered Prod.fst (fun upstream => transformationRecord upstream.2)
        (columnUpstream exporter.graph column)) fun _ _ _ _ => Iff.rfl
    exact ⟨_, List.perm_insertionSort _ _, hsort.symm⟩
  refine ⟨groups.map Prod.fst, ?_, fun origin => ?_, ?_⟩
  · exact (hperm.map _).nodup_iff.2 (Library.nodup_keys_gathered _ _ _)
  · rw [(hperm.map _).mem_iff, Library.mem_keys_gathered, ← mem_columnUpstream]
    exact ⟨fun ⟨⟨_, edge⟩, hedge, heq⟩ => ⟨edge, heq ▸ hedge⟩, fun ⟨edge, hedge⟩ => ⟨_, hedge, rfl⟩⟩
  · rw [hfields, List.forall₂_map_left_iff, List.forall₂_map_right_iff, List.forall₂_same]
    rintro ⟨origin, records⟩ hgroup
    rw [Library.eq_of_mem_gathered (hperm.mem_iff.1 hgroup)]
    refine ⟨rfl, rfl, ?_⟩
    have hrecords := (group_columnUpstream exporter.graph origin column).map
      transformationRecord
    rwa [List.map_map] at hrecords

section Output

variable {output : DatasetId} (hnodup : (datasetColumns exporter.graph output).Nodup)
  (hdataset : ∀ column ∈ datasetColumns exporter.graph output, column.dataset = output)

include hdataset in
theorem eq_of_name {a b : DatasetColumn} (ha : a ∈ datasetColumns exporter.graph output)
    (hb : b ∈ datasetColumns exporter.graph output) (h : a.name = b.name) : a = b := by
  obtain ⟨dataset, name⟩ := a
  obtain ⟨dataset', name'⟩ := b
  obtain rfl := (hdataset _ ha).trans (hdataset _ hb).symm
  exact congrArg (DatasetColumn.mk dataset) h

include hnodup hdataset in
theorem nodup_keys_columnFields : ((exporter.columnFields output).map Prod.fst).Nodup := by
  rw [Exporter.columnFields, List.map_map]
  refine List.Nodup.map_on (fun a ha b hb => ?_) (hnodup.filter _)
  exact eq_of_name hdataset (List.mem_filter.1 ha).1 (List.mem_filter.1 hb).1

include hnodup hdataset in
/-- The exported fields of a column, when the columns of the output have names of their own. -/
theorem fieldsOf_columnLineage {column : DatasetColumn}
    (hcolumn : column ∈ datasetColumns exporter.graph output) :
    fieldsOf (exporter.columnLineage output) column.name = exporter.inputFields column := by
  have hfields : fieldsOf (exporter.columnLineage output) column.name =
      (((exporter.columnFields output).find? fun pair => pair.1 = column.name).map
        Prod.snd).getD [] := by
    rw [← find?_collected (nodup_keys_columnFields hnodup hdataset), fieldsOf,
      Exporter.columnLineage]
    split
    · next hnil => rw [hnil]; rfl
    · rfl
  rw [hfields]
  cases hfound : (exporter.columnFields output).find? fun pair => pair.1 = column.name with
  | none =>
    have hempty : columnUpstream exporter.graph column = [] := by
      by_contra hne
      have hmem : (column.name, exporter.inputFields column) ∈ exporter.columnFields output :=
        List.mem_map_of_mem (f := fun column => (column.name, exporter.inputFields column))
          (List.mem_filter.2 ⟨hcolumn, by simpa using hne⟩)
      simpa using List.find?_eq_none.1 hfound _ hmem
    rw [Exporter.inputFields, hempty]
    rfl
  | some pair =>
    have hname : pair.1 = column.name := by simpa using List.find?_some hfound
    obtain ⟨other, hother, rfl⟩ := List.mem_map.1 (List.mem_of_find?_eq_some hfound)
    rw [eq_of_name hdataset (List.mem_filter.1 hother).1 hcolumn hname]
    rfl

end Output

end Columns

/-! ## The export of a compilation -/

section Document

variable {c : CompiledLineage} {ns eventTime : String}
variable {id : DatasetId} {m : LineageModel}
variable {event : JobEvent}

/-- The exporter over the graph of a compilation. -/
def exporterOf (c : CompiledLineage) (ns eventTime : String) : Exporter where
  graph := .build c
  ns := ns
  eventTime := eventTime

theorem holds_model_iff {id : ModelId} :
    (LineageGraph.build c).Holds (.node (.model id)) ↔ ∃ m ∈ c.models, m.id = id := by
  constructor
  · intro h
    cases LineageGraph.asked_of_holds h with
    | model m hm => exact ⟨m, hm, rfl⟩
  · rintro ⟨m, hm, rfl⟩
    exact LineageGraph.grows_build c _ (LineageGraph.grows_afterColumns c _
      (LineageGraph.grows_afterDependencies c _ (LineageGraph.grows_afterSources c _
        (LineageGraph.holds_afterModels hm).1)))

theorem holds_dataset_iff :
    (LineageGraph.build c).Holds (.node (.dataset id)) ↔ id ∈ datasets c := by
  constructor
  · intro h
    cases LineageGraph.asked_of_holds h with
    | output m hm => exact .inl ⟨m, hm, rfl⟩
    | source source hsource => exact .inr ⟨source, hsource, rfl⟩
  · have hgrows := (LineageGraph.grows_afterDependencies c).trans
      ((LineageGraph.grows_afterColumns c).trans (LineageGraph.grows_build c))
    rintro (⟨m, hm, rfl⟩ | ⟨source, hsource, rfl⟩)
    · exact hgrows _ (LineageGraph.grows_afterSources c _ (LineageGraph.holds_afterModels hm).2.1)
    · exact hgrows _ (LineageGraph.holds_afterSources hsource)

theorem parts_ne_nil_of_mem_datasets (h : id ∈ datasets c) : id.parts ≠ [] := by
  rcases h with ⟨m, -, rfl⟩ | ⟨source, -, rfl⟩
  · exact List.cons_ne_nil _ _
  · exact source.parts_ne_nil

theorem mem_jobs (h : event ∈ (exporterOf c ns eventTime).document.jobs) :
    ∃ m ∈ c.models, ∃ data, event = (exporterOf c ns eventTime).jobEvent m.id data := by
  rw [Exporter.document, List.mem_insertionSort] at h
  obtain ⟨⟨id, data⟩, hrow, rfl⟩ := List.mem_map.1 h
  obtain ⟨m, hm, rfl⟩ := holds_model_iff.1
    ((mem_rowsOf model?_eq_some).1 (List.mem_map_of_mem (f := Prod.fst) hrow))
  exact ⟨m, hm, data, rfl⟩

theorem eq_jobEvent (h : event ∈ (exporterOf c ns eventTime).document.jobs)
    (hname : event.job.name = m.id.logicalName) :
    ∃ data, event = (exporterOf c ns eventTime).jobEvent m.id data := by
  obtain ⟨m', -, data, rfl⟩ := mem_jobs h
  rw [← ModelId.logicalName_injective hname]
  exact ⟨data, rfl⟩

theorem job_names_perm (hc : c.Resolved) (ns eventTime : String) :
    ((exporterOf c ns eventTime).document.jobs.map (·.job.name)).Perm
      (c.models.map (·.id.logicalName)) := by
  have hids : ((rowsOf (LineageGraph.build c) model?).map Prod.fst).Perm
      (c.models.map LineageModel.id) := by
    rw [List.perm_ext_iff_of_nodup (nodup_rowsOf model?_eq_some) hc.nodup]
    intro id
    rw [mem_rowsOf model?_eq_some, holds_model_iff, List.mem_map]
  have hnames := hids.map ModelId.logicalName
  rw [List.map_map, List.map_map] at hnames
  refine ((List.perm_insertionSort _ _).map _).trans ?_
  rw [List.map_map]
  exact hnames

theorem dataset_identities_perm (c : CompiledLineage) (ns eventTime : String) :
    ((exporterOf c ns eventTime).document.datasets.map (·.dataset.identity)).Perm
      (((rowsOf (LineageGraph.build c) dataset?).map Prod.fst).map identity) := by
  refine ((List.perm_insertionSort _ _).map _).trans (.of_eq ?_)
  rw [List.map_map, List.map_map]
  rfl

theorem mem_dataset_rows :
    id ∈ (rowsOf (LineageGraph.build c) dataset?).map Prod.fst ↔ id ∈ datasets c := by
  rw [mem_rowsOf dataset?_eq_some, holds_dataset_iff]

theorem hasEvent_iff (hid : id.parts ≠ []) :
    (∃ other ∈ (exporterOf c ns eventTime).document.datasets,
      other.dataset.identity = identity id) ↔ id ∈ datasets c := by
  have hperm := dataset_identities_perm c ns eventTime
  have hmem := hperm.mem_iff (a := identity id)
  rw [List.mem_map, List.mem_map] at hmem
  rw [hmem]
  constructor
  · rintro ⟨id', hid', heq⟩
    have hknown := mem_dataset_rows.1 hid'
    rwa [← identity_injective (parts_ne_nil_of_mem_datasets hknown) hid heq]
  · exact fun h => ⟨id, mem_dataset_rows.2 h, rfl⟩

theorem dataset_names_nodup_iff :
    ((exporterOf c ns eventTime).document.datasets.map (·.dataset.name)).Nodup ↔
      DistinctNames c := by
  have hnames : ((exporterOf c ns eventTime).document.datasets.map (·.dataset.name)).Perm
      (((rowsOf (LineageGraph.build c) dataset?).map Prod.fst).map DatasetId.name) := by
    have hperm := (dataset_identities_perm c ns eventTime).map Prod.fst
    rwa [List.map_map, List.map_map] at hperm
  rw [hnames.nodup_iff, List.nodup_map_iff_inj_on (nodup_rowsOf dataset?_eq_some)]
  simp only [mem_dataset_rows]
  exact ⟨fun h a ha b hb => h a ha b hb, fun h a ha b hb => h ha hb⟩

theorem mem_inputDatasets_build (hc : c.Resolved) (hm : m ∈ c.models) :
    id ∈ inputDatasets (LineageGraph.build c) m.id ↔
      ∃ dependency ∈ m.dependencies, dependency.dataset = id := by
  rw [mem_inputDatasets]
  constructor
  · rintro ⟨edge, hedge, -⟩
    have hasked := LineageGraph.asked_of_holds hedge
    generalize hid : m.id = model at hasked
    cases hasked with
    | input m' hm' dependency hdependency =>
      obtain rfl := List.inj_on_of_nodup_map hc.nodup hm hm' hid
      exact ⟨dependency, hdependency, rfl⟩
  · rintro ⟨dependency, hdependency, rfl⟩
    exact ⟨_, LineageGraph.grows_build c _ (LineageGraph.grows_afterColumns c _
      (LineageGraph.holds_afterDependencies hc hm hdependency).1), rfl⟩

/-- Containment is recorded with nothing but its kind, of columns of the dataset. -/
theorem eq_of_contains {column : DatasetColumn} {edge : LineageEdge}
    (h : (LineageGraph.build c).Holds (.edge (.dataset id) (.column column) edge)) :
    column.dataset = id ∧ edge = .plain .contains := by
  have hasked := LineageGraph.asked_of_holds h
  generalize hnode : LineageNode.column column = node at hasked
  cases hasked with
  | contains => exact ⟨by cases hnode; rfl, rfl⟩
  | inputContains => exact ⟨by cases hnode; rfl, rfl⟩
  | _ => exact absurd hnode (by simp)

theorem dataset_of_mem_datasetColumns :
    ∀ column ∈ datasetColumns (LineageGraph.build c) id, column.dataset = id := by
  intro column hcolumn
  obtain ⟨edge, hedge, -⟩ := mem_datasetColumns.1 hcolumn
  exact (eq_of_contains hedge).1

theorem nodup_datasetColumns (id : DatasetId) :
    (datasetColumns (LineageGraph.build c) id).Nodup := by
  refine (List.perm_insertionSort _ _).nodup_iff.2 (List.pairwise_filterMap.2 ?_)
  refine (List.nodup_reverse.2 (LineageGraph.build c).edges_nodup).imp_of_mem ?_
  rintro ⟨origin, target, edge⟩ ⟨origin', target', edge'⟩ hrow hrow' hne column hcolumn _ hcolumn'
    rfl
  obtain ⟨rfl, rfl, -⟩ := containment_eq_some.1 hcolumn
  obtain ⟨rfl, rfl, -⟩ := containment_eq_some.1 hcolumn'
  have hedge := eq_of_contains (List.mem_reverse.1 hrow)
  have hedge' := eq_of_contains (List.mem_reverse.1 hrow')
  exact hne (by rw [hedge.2, hedge'.2])

theorem mem_datasetColumns_build (hm : m ∈ c.models) {column : OutputColumn}
    (hcolumn : column ∈ m.columns) :
    ⟨.model m.id, column.name⟩ ∈ datasetColumns (LineageGraph.build c) (.model m.id) :=
  mem_datasetColumns.2 ⟨_, LineageGraph.grows_build c _
    (LineageGraph.holds_afterColumns hm hcolumn).2, rfl⟩

/-- What an output column derives from is recorded as an input. -/
theorem input_of_derivations {origin column : DatasetColumn}
    (h : derivations (LineageGraph.build c) origin column ≠ []) :
    ∃ m ∈ c.models, ∃ output ∈ m.columns, ∃ input ∈ output.inputs,
      origin.dataset = .relation input.relation := by
  obtain ⟨edge, hedge, -⟩ := derivations_ne_nil.1 h
  have hasked := LineageGraph.asked_of_holds hedge
  generalize horigin : LineageNode.column origin = start at hasked
  generalize htarget : LineageNode.column column = target at hasked
  cases hasked with
  | derivesColumn m hm output houtput input hinput =>
    cases horigin
    exact ⟨m, hm, output, houtput, input, hinput, rfl⟩
  | _ => simp at horigin htarget

/-- What is recorded as an input of an output column is an edge to it. -/
theorem derivations_of_input (hm : m ∈ c.models) {column : OutputColumn}
    (hcolumn : column ∈ m.columns) {input : ColumnInput} (hinput : input ∈ column.inputs) :
    derivations (LineageGraph.build c) ⟨.relation input.relation, input.column⟩
      ⟨.model m.id, column.name⟩ ≠ [] :=
  derivations_ne_nil.2 ⟨_, LineageGraph.grows_build c _
    (LineageGraph.holds_input hm hcolumn hinput).2.1, rfl⟩

theorem parts_relation_ne_nil (relation : RelationRef) :
    (DatasetId.relation relation).parts ≠ [] := by
  cases relation with
  | model id => exact List.cons_ne_nil _ _
  | source source => exact source.parts_ne_nil

theorem dataset_mem_datasets (hc : c.Resolved) (hm : m ∈ c.models) {dependency : Dependency}
    (h : dependency ∈ m.dependencies) : dependency.dataset ∈ datasets c := by
  cases dependency with
  | model id =>
    obtain ⟨m', hm', rfl⟩ := hc.dependencies m hm id h
    exact .inl ⟨m', hm', rfl⟩
  | source source => exact .inr ⟨source, CompiledLineage.mem_sources.2 ⟨m, hm, h⟩, rfl⟩

theorem faithful_of_distinct (hc : c.Resolved) (hdistinct : DistinctNames c)
    (hknown : KnownInputs c) : Faithful (exporterOf c ns eventTime) c := by
  have hnames := job_names_perm hc ns eventTime
  have horigin {origin column : DatasetColumn}
      (h : derivations (LineageGraph.build c) origin column ≠ []) :
      origin.dataset ∈ datasets c := by
    obtain ⟨m, hm, output, houtput, input, hinput, heq⟩ := input_of_derivations h
    rw [heq]
    exact hknown m hm output houtput input hinput
  constructor
  case jobs => exact hnames
  case jobNames =>
    rw [hnames.nodup_iff, ← Function.comp_def, ← List.map_map]
    exact hc.nodup.map ModelId.logicalName_injective
  case datasets =>
    exact ⟨_, nodup_rowsOf dataset?_eq_some, fun _ => mem_dataset_rows,
      dataset_identities_perm c ns eventTime⟩
  case datasetNames => exact dataset_names_nodup_iff.2 hdistinct
  case inputs =>
    intro m hm event hevent hname
    obtain ⟨data, rfl⟩ := eq_jobEvent hevent hname
    refine ⟨_, nodup_inputDatasets m.id, fun _ => mem_inputDatasets_build hc hm, ?_⟩
    exact List.map_map
  case output =>
    intro m hm event hevent hname
    obtain ⟨data, rfl⟩ := eq_jobEvent hevent hname
    rfl
  case columns =>
    intro m hm column hcolumn event hevent hname output houtput
    obtain ⟨data, rfl⟩ := eq_jobEvent hevent hname
    rw [List.mem_singleton.1 houtput]
    have hfields := @fieldsOf_columnLineage (exporterOf c ns eventTime) _ (nodup_datasetColumns _)
      dataset_of_mem_datasetColumns _ (mem_datasetColumns_build hm hcolumn)
    refine hfields ▸ grouped_inputFields fun a b ha hb heq => ?_
    exact hdistinct (horigin ha) (horigin hb) heq
  case inputEvents =>
    intro event hevent dataset hdataset
    obtain ⟨m, hm, data, rfl⟩ := mem_jobs hevent
    rcases List.mem_append.1 hdataset with hinput | houtput
    · obtain ⟨id, hid, rfl⟩ := List.mem_map.1 hinput
      obtain ⟨dependency, hdependency, rfl⟩ := (mem_inputDatasets_build hc hm).1 hid
      have hmem := dataset_mem_datasets hc hm hdependency
      exact (hasEvent_iff (parts_ne_nil_of_mem_datasets hmem)).2 hmem
    · rw [List.mem_singleton.1 houtput]
      have hmem : DatasetId.model m.id ∈ datasets c := .inl ⟨m, hm, rfl⟩
      exact (hasEvent_iff (parts_ne_nil_of_mem_datasets hmem)).2 hmem
  case originEvents =>
    intro m hm column hcolumn origin h
    have hmem := horigin h
    exact (hasEvent_iff (parts_ne_nil_of_mem_datasets hmem)).2 hmem

theorem Faithful.knownInputs (h : Faithful (exporterOf c ns eventTime) c) : KnownInputs c :=
  fun m hm column hcolumn _ hinput =>
    (hasEvent_iff (parts_relation_ne_nil _)).1
      (h.originEvents m hm column hcolumn _ (derivations_of_input hm hcolumn hinput))

end Document

/-- The export of a compilation is faithful exactly when its datasets have names of their own and
what is recorded as an input of a column belongs to one of them. -/
theorem export_faithful_iff (project : ParsedProject) (ns eventTime : String) :
    Faithful (exporterOf project.compile ns eventTime) project.compile ↔
      DistinctNames project.compile ∧ KnownInputs project.compile :=
  ⟨fun h => ⟨dataset_names_nodup_iff.1 h.datasetNames, h.knownInputs⟩,
    fun h => faithful_of_distinct project.resolved_compile h.1 h.2⟩

/-! ## Two sources of one name -/

namespace Sample

def samples : RelationName where
  parts := ["lims", "samples"]
  parts_ne_nil := by simp
  part_ne_empty := by simp

def quotedSamples : RelationName where
  parts := ["lims.samples"]
  parts_ne_nil := by simp
  part_ne_empty := by simp

def mergedSources : ParsedProject where
  models :=
    [{ entry :=
        { id :=
            { ns := "assay"
              path := ["mart"]
              ns_valid := Eq.refl true
              path_ne_nil := by simp
              path_valid := by decide }
          ns := "assay"
          root := none }
       relations := [samples, quotedSamples]
       path := none
       version := ""
       materialization := .table
       workflow := none
       target := { catalog := none, schema := "assay", table := "mart" }
       directives := { keys := [], notNull := [] }
       columns :=
        [{ name := "total"
           dataType := "bigint"
           nullability := "unknown"
           inputs := [samples, quotedSamples].map fun name =>
            { relation := .source ⟨name.parts, name.parts_ne_nil⟩
              column := "id"
              directness := .direct
              transformation := .transformation
              confidence := .exact
              expression := none }
           confidence := .exact }] }]
  seeds := []
  tests := []

/-- Two sources are exported under one name. -/
theorem not_faithful_mergedSources :
    ¬Faithful (exporterOf mergedSources.compile "phlo" "") mergedSources.compile := by
  intro h
  have hdistinct := dataset_names_nodup_iff.1 h.datasetNames
  have hsource (name : RelationName) (hname : name ∈ [samples, quotedSamples]) :
      DatasetId.source ⟨name.parts, name.parts_ne_nil⟩ ∈ datasets mergedSources.compile := by
    refine .inr ⟨⟨name.parts, name.parts_ne_nil⟩, ?_, rfl⟩
    revert name
    decide +kernel
  have hsame := hdistinct (hsource samples (by simp)) (hsource quotedSamples (by simp)) (by rfl)
  exact absurd (congrArg DatasetId.parts hsame) (by decide)

end Sample

end PhloTransform.OpenLineage
