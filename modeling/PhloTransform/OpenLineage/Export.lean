import PhloTransform.Core.SeedDatasets
import PhloTransform.Library.Gathering

/-!
# OpenLineage export

A lineage graph is exported as a list of events: a job event for each model, with its input
datasets, its output dataset and the columns that the output is derived from, and a dataset event
for each dataset.  Datasets go by their dotted names.

Main definitions:

- Definition `inputDatasets`, `datasetColumns`, `columnUpstream`: what the exporter reads of a
  graph.
- Definition `Exporter.columnLineage`: the input fields of the columns of an output.
- Definition `Exporter.document`: the exported events.
-/

namespace PhloTransform.OpenLineage

open Core (DatasetColumn DatasetId DatasetKind Directness LineageConfidence LineageEdge LineageGraph
  LineageNode ModelId NodeMeta Transformation)
open Library (collected gathered)

/-! ## What is read of a graph -/

section Queries

variable (graph : LineageGraph)

/-- What is known about a node; nothing about one that is not there. -/
def nodeMeta (node : LineageNode) : NodeMeta :=
  (LineageGraph.metaOf graph.nodes node).getD .empty

/-- The nodes of one kind with what is known about them. -/
def rowsOf {α : Type} (select : LineageNode → Option α) : List (α × NodeMeta) :=
  graph.nodes.filterMap fun row => (select row.1).map fun a => (a, row.2)

def model? : LineageNode → Option ModelId
  | .model id => some id
  | _ => none

def dataset? : LineageNode → Option DatasetId
  | .dataset id => some id
  | _ => none

/-- Columns compare by their dataset and then by name. -/
def columnKey (column : DatasetColumn) : Lex (List String × String) :=
  toLex (column.dataset.parts, column.name)

/-- The datasets that a model reads, each once and in order. -/
def inputDatasets (model : ModelId) : List DatasetId :=
  ((graph.edges.reverse.filterMap fun
    | (.dataset dataset, target, edge) =>
      if target = .model model ∧ edge.kind = .input then some dataset else none
    | _ => none).dedup).insertionSort fun a b => a.parts ≤ b.parts

def outputDataset (model : ModelId) : DatasetId :=
  .model model

/-- The column that an edge leads to, if the edge says that this dataset contains it. -/
def containment (dataset : DatasetId) :
    LineageNode × LineageNode × LineageEdge → Option DatasetColumn
  | (origin, .column column, edge) =>
    if origin = .dataset dataset ∧ edge.kind = .contains then some column else none
  | _ => none

/-- The columns that a dataset contains, in order. -/
def datasetColumns (dataset : DatasetId) : List DatasetColumn :=
  (graph.edges.reverse.filterMap (containment dataset)).insertionSort fun a b =>
    columnKey a ≤ columnKey b

/-- The column that an edge leads from, if the edge says that this column derives from it. -/
def derivation (column : DatasetColumn) :
    LineageNode × LineageNode × LineageEdge → Option (DatasetColumn × LineageEdge)
  | (.column origin, target, edge) =>
    if target = .column column ∧ edge.kind = .derives then some (origin, edge) else none
  | _ => none

/-- The columns that a column derives from, with the edges, which are taken from the last one
that was added to the first. -/
def columnUpstream (column : DatasetColumn) : List (DatasetColumn × LineageEdge) :=
  (graph.edges.reverse.filterMap (derivation column)).insertionSort fun a b =>
    columnKey a.1 ≤ columnKey b.1

end Queries

/-! ## Facets -/

def producer : String :=
  "https://github.com/phlohouse/phlo-transform"

def jobEventSchemaUrl : String :=
  "https://openlineage.io/spec/2-0-2/OpenLineage.json#/$defs/JobEvent"

def datasetEventSchemaUrl : String :=
  "https://openlineage.io/spec/2-0-2/OpenLineage.json#/$defs/DatasetEvent"

/-- A facet with the schema that it validates against. -/
structure Facet (Body : Type) where
  producer : String
  schemaUrl : String
  body : Body

def Facet.of {Body : Type} (schemaUrl : String) (body : Body) : Facet Body where
  producer := OpenLineage.producer
  schemaUrl := schemaUrl
  body := body

namespace FacetSchemaUrl

def schema : String :=
  "https://openlineage.io/spec/facets/1-0-0/SchemaDatasetFacet.json#/$defs/SchemaDatasetFacet"

def datasetType : String :=
  "https://openlineage.io/spec/facets/1-0-1/DatasetTypeDatasetFacet.json#" ++
    "/$defs/DatasetTypeDatasetFacet"

def symlinks : String :=
  "https://openlineage.io/spec/facets/1-0-1/SymlinksDatasetFacet.json#/$defs/SymlinksDatasetFacet"

def columnLineage : String :=
  "https://openlineage.io/spec/facets/1-2-0/ColumnLineageDatasetFacet.json#" ++
    "/$defs/ColumnLineageDatasetFacet"

def jobType : String :=
  "https://openlineage.io/spec/facets/2-0-3/JobTypeJobFacet.json#/$defs/JobTypeJobFacet"

def phloJob : String :=
  "https://raw.githubusercontent.com/phlohouse/phlo-transform/schemas-facets-1.0.0/" ++
    "schemas/facets/1-0-0/PhloJobFacet.json#/$defs/PhloJobFacet"

def phloDataset : String :=
  "https://raw.githubusercontent.com/phlohouse/phlo-transform/schemas-facets-1.0.0/" ++
    "schemas/facets/1-0-0/PhloDatasetFacet.json#/$defs/PhloDatasetFacet"

end FacetSchemaUrl

structure SchemaField where
  name : String
  dataType : Option String
  description : Option String
deriving DecidableEq

structure DatasetType where
  datasetType : String
  subType : Option String
deriving DecidableEq

/-- The physical relation of a dataset. -/
structure SymlinkIdentifier where
  ns : String
  name : String
  identifierType : String
deriving DecidableEq

structure PhloDataset where
  uri : String
  kind : String
  materialization : Option String
  path : Option String
  fieldConfidence : List (String × String)
deriving DecidableEq

structure TransformationRecord where
  recordType : String
  subtype : String
  description : Option String
  masking : Bool
deriving DecidableEq

structure InputField where
  ns : String
  name : String
  field : String
  transformations : List TransformationRecord
deriving DecidableEq

abbrev ColumnLineage := List (String × List InputField)

structure DatasetFacets where
  schema : Option (Facet (List SchemaField))
  datasetType : Facet DatasetType
  symlinks : Option (Facet (List SymlinkIdentifier))
  columnLineage : Option (Facet ColumnLineage)
  phloDataset : Facet PhloDataset

structure Dataset where
  ns : String
  name : String
  facets : DatasetFacets

structure JobType where
  processingType : String
  integration : String
  jobType : String

structure PhloJob where
  uri : String
  path : Option String
  materialization : String
  workflow : Option String
  version : String

structure Job where
  ns : String
  name : String
  jobType : Facet JobType
  phloJob : Facet PhloJob

/-! ## Events -/

/-- A model with its input and output datasets. -/
structure JobEvent where
  eventTime : String
  producer : String
  schemaUrl : String
  job : Job
  inputs : List Dataset
  outputs : List Dataset

/-- Standalone dataset metadata. -/
structure DatasetEvent where
  eventTime : String
  producer : String
  schemaUrl : String
  dataset : Dataset

/-- The job events followed by the dataset events. -/
structure Document where
  jobs : List JobEvent
  datasets : List DatasetEvent

/-- `dataset_type`. -/
def datasetType (data : NodeMeta) : String × Option String :=
  match data.datasetKind with
  | some .model =>
    if data.materialization = some "ephemeral" then ("JOB_OUTPUT", some "TEMPORARY")
    else if data.materialization = some "view" then ("VIEW", none)
    else ("TABLE", none)
  | some .seed => ("TABLE", none)
  | _ => ("TABLE", some "EXTERNAL")

def transformationName : Transformation → String
  | .identity => "IDENTITY"
  | .transformation => "TRANSFORMATION"
  | .aggregation => "AGGREGATION"
  | .join => "JOIN"
  | .filter => "FILTER"
  | .groupBy => "GROUP_BY"
  | .sort => "SORT"
  | .window => "WINDOW"
  | .conditional => "CONDITIONAL"

def confidenceName (confidence : LineageConfidence) : String :=
  confidence.asStr

def kindName : Option DatasetKind → String
  | some .model => "model"
  | some .source => "source"
  | some .seed => "seed"
  | some .external | none => "external"

/-- What an edge says of an input field. -/
def transformationRecord (edge : LineageEdge) : TransformationRecord where
  recordType := if edge.directness = some .direct then "DIRECT" else "INDIRECT"
  subtype := (edge.transformation.map transformationName).getD "TRANSFORMATION"
  description := edge.expression
  masking := false

/-- An exporter over a graph. -/
structure Exporter where
  graph : LineageGraph
  ns : String
  eventTime : String

namespace Exporter

variable (exporter : Exporter)

/-- An input field goes by the name of its dataset and its own. -/
def fieldName (column : DatasetColumn) : String × String :=
  (column.dataset.name, column.name)

def inputField (field : (String × String) × List TransformationRecord) : InputField where
  ns := exporter.ns
  name := field.1.1
  field := field.1.2
  transformations := field.2

/-- The input fields of a column: repeated edges to the same field are merged. -/
def inputFields (column : DatasetColumn) : List InputField :=
  ((gathered (fun upstream => fieldName upstream.1)
      (fun upstream => transformationRecord upstream.2)
      (columnUpstream exporter.graph column)).map exporter.inputField).insertionSort fun a b =>
        toLex (a.name, a.field) ≤ toLex (b.name, b.field)

/-- The columns of a dataset with their input fields; columns that derive from nothing are left
out. -/
def columnFields (output : DatasetId) : ColumnLineage :=
  ((datasetColumns exporter.graph output).filter fun column =>
    columnUpstream exporter.graph column ≠ []).map fun column =>
      (column.name, exporter.inputFields column)

/-- The column lineage of the output of a model. -/
def columnLineage (output : DatasetId) : Option (Facet ColumnLineage) :=
  if collected (exporter.columnFields output) = [] then none
  else some (.of FacetSchemaUrl.columnLineage (collected (exporter.columnFields output)))

def dataset (id : DatasetId) (data : NodeMeta) (columnLineage : Option (Facet ColumnLineage)) :
    Dataset :=
  let columns := datasetColumns exporter.graph id
  { ns := exporter.ns
    name := id.name
    facets :=
      { schema :=
          if columns = [] then none
          else some <| .of FacetSchemaUrl.schema <| columns.map fun column =>
            { name := column.name
              dataType := (nodeMeta exporter.graph (.column column)).dataType
              description := none }
        datasetType := .of FacetSchemaUrl.datasetType
          { datasetType := (datasetType data).1, subType := (datasetType data).2 }
        symlinks := data.target.map fun target => .of FacetSchemaUrl.symlinks
          [{ ns := exporter.ns
             name := target
             identifierType := if data.materialization = some "view" then "view" else "table" }]
        columnLineage := columnLineage
        phloDataset := .of FacetSchemaUrl.phloDataset
          { uri := id.uri
            kind := kindName data.datasetKind
            materialization := data.materialization
            path := data.path
            fieldConfidence := collected <| columns.filterMap fun column =>
              (nodeMeta exporter.graph (.column column)).confidence.map fun confidence =>
                (column.name, confidenceName confidence) } } }

def jobEvent (id : ModelId) (data : NodeMeta) : JobEvent :=
  let output := outputDataset id
  { eventTime := exporter.eventTime
    producer := producer
    schemaUrl := jobEventSchemaUrl
    job :=
      { ns := exporter.ns
        name := id.logicalName
        jobType := .of FacetSchemaUrl.jobType
          { processingType := "BATCH", integration := "PHLO", jobType := "MODEL" }
        phloJob := .of FacetSchemaUrl.phloJob
          { uri := (LineageNode.model id).uri
            path := data.path
            materialization := data.materialization.getD ""
            workflow := data.workflow
            version := data.version.getD "" } }
    inputs := (inputDatasets exporter.graph id).map fun input =>
      exporter.dataset input (nodeMeta exporter.graph (.dataset input)) none
    outputs := [exporter.dataset output (nodeMeta exporter.graph (.dataset output))
      (exporter.columnLineage output)] }

def datasetEvent (id : DatasetId) (data : NodeMeta) : DatasetEvent where
  eventTime := exporter.eventTime
  producer := producer
  schemaUrl := datasetEventSchemaUrl
  dataset := exporter.dataset id data none

def document : Document where
  jobs := ((rowsOf exporter.graph model?).map fun row => exporter.jobEvent row.1 row.2)
    |>.insertionSort fun a b => a.job.name ≤ b.job.name
  datasets := ((rowsOf exporter.graph dataset?).map fun row => exporter.datasetEvent row.1 row.2)
    |>.insertionSort fun a b => a.dataset.name ≤ b.dataset.name

end Exporter

end PhloTransform.OpenLineage
