import PhloTransform.Dbt.LostResources
import PhloTransform.Sql.HeaderLines

/-!
# The text of a translated model

The file of a model starts with a title, the lines of its descriptions and its directives, each
a line comment, and then has its SQL.  The directives are those of the identity, of how the model
is built, of its key, its tags, its owner and the columns that are not null.

Rendering the SQL is a parameter.

Main results:

- Theorem `closeText_append`: the newline at the end of a file.
- Theorem `textLines_file`: the lines of a file.
-/

namespace PhloTransform.Dbt

open Core (Materialization sortColumns trim)
open Library (textLines textLines_flatMap)
open Sql (Directives HeaderDirective)

/-! ## Headers -/

/-- How a model is built when it is not as its namespace says. -/
inductive Build where
  | view
  | table
  | ephemeral
  | incremental (directive : Directive)
deriving Repr, DecidableEq

def Build.directive : Build → HeaderDirective
  | view => .materialized .view
  | table => .materialized .table
  | ephemeral => .materialized .ephemeral
  | incremental directive => .incremental directive.strategy

/-- What the header of a file says. -/
structure Header where
  title : List Char
  notes : List (List Char)
  id : Option String
  build : Option Build
  key : List String
  tags : List String
  owner : Option String
  notNull : List String

namespace Header

variable (header : Header)

/-- The directives in their order; an empty list has none. -/
def directives : List HeaderDirective :=
  header.id.toList.map .id ++ header.build.toList.map Build.directive ++
    (if header.key = [] then [] else [.key header.key]) ++
    (if header.tags = [] then [] else [.tags header.tags]) ++
    header.owner.toList.map .owner ++ header.notNull.map .notNull

def texts : List (List Char) :=
  header.title :: (header.notes ++ header.directives.map HeaderDirective.line)

def text : List Char :=
  header.texts.flatMap fun text => text ++ ['\n']

end Header

/-! ## Files -/

/-- A newline at the end unless there is one. -/
def closeText (text : List Char) : List Char :=
  if text.getLast? = some '\n' then text else text ++ ['\n']

/-- `trim_start_matches` of the blanks before the SQL. -/
def stripSql (sql : List Char) : List Char :=
  sql.dropWhile fun c => c == '\n' || c == ' ' || c == '\t'

def composeFile (header : Header) (sql : List Char) : List Char :=
  closeText (header.text ++ '\n' :: stripSql sql)

/-- The lines of the SQL behind an empty one. -/
def sqlLines (sql : List Char) : List (List Char) :=
  textLines (closeText ('\n' :: stripSql sql))

theorem closeText_append (front : List Char) {c : Char} {text : List Char} :
    closeText (front ++ c :: text) = front ++ closeText (c :: text) := by
  unfold closeText
  rw [List.getLast?_append_of_ne_nil _ (List.cons_ne_nil c text)]
  split
  · rfl
  · rw [List.append_assoc]

/-- The lines of a file: those of the header, and those of the SQL. -/
theorem textLines_file (header : Header) (sql : List Char) :
    textLines (composeFile header sql) =
      header.texts.flatMap (fun text => textLines (text ++ ['\n'])) ++ sqlLines sql := by
  rw [composeFile, closeText_append, Header.text, textLines_flatMap, sqlLines]

/-! ## Models -/

namespace DbtProject

variable (r : Renderer) (p : DbtProject)

/-- The materialisation of the directory, or else of the project. -/
def inheritedMaterialized (model : DbtSqlFile) : String :=
  (configStr (p.modelDirConfig model) "materialized" <|>
    configStr (dirConfig p.modelsTree p.name []) "materialized").getD "view"

/-- How a model is built, unless that is inherited. -/
def build (model : DbtSqlFile) : Option Build :=
  let merged := p.modelConfig r model
  if merged.materialized = "incremental" then
    match (translateIncremental merged (r.lowerSql model).toLowered).directive with
    | some directive => some (.incremental directive)
    | none => some .table
  else if merged.materialized = p.inheritedMaterialized model then none
  else
    match merged.materialized with
    | "table" => some .table
    | "ephemeral" => some .ephemeral
    | "view" => some .view
    | _ => none

/-- The tags of the configuration and of the property file. -/
def modelTags (model : DbtSqlFile) : List String :=
  ((p.modelConfig r model "tags").bind Lit.asStrList).getD [] ++
    (((p.modelProperties model.stem).bind (Yaml.get "tags")).bind yamlStrList).getD []

/-- `meta.owner` of the configuration, or else of the property file. -/
def modelOwner (model : DbtSqlFile) : Option String :=
  ((p.modelConfig r model "meta").bind (Lit.field "owner")).bind Lit.asStr <|>
    (((p.modelProperties model.stem).bind (Yaml.get "meta")).bind (Yaml.get "owner")).bind Yaml.asStr

/-- The descriptions of the property file and of the configuration. -/
def modelDescriptions (model : DbtSqlFile) : List String :=
  (((p.modelProperties model.stem).bind (Yaml.get "description")).bind Yaml.asStr).toList ++
    match p.modelConfig r model "description" with
    | some (.str description) => [description]
    | _ => []

/-- A comment for each line of a description. -/
def noteLines (description : String) : List (List Char) :=
  (textLines (trim description.toList)).map fun line => "-- ".toList ++ line

def modelTitle (model : DbtSqlFile) : List Char :=
  ("-- translated from dbt model `" ++ model.stem ++ "` (" ++ model.relPath ++ ")").toList

def modelHeader (model : DbtSqlFile) : Header where
  title := modelTitle model
  notes := (p.modelDescriptions r model).flatMap noteLines
  -- the identity is pinned when the schema moves the file
  id := (p.schemaFolder r model).map fun _ => p.identity model
  build := p.build r model
  key :=
    if (p.modelConfig r model).materialized = "incremental" then []
    else (p.modelConfig r model).uniqueKey
  tags := sortColumns (p.modelTags r model)
  owner := p.modelOwner r model
  notNull := (p.modelTests r model).notNull

/-- The text of an emitted model, for the SQL that is rendered. -/
def modelFile (sql : DbtSqlFile → List Char) (model : DbtSqlFile) : List Char :=
  composeFile (p.modelHeader r model) (sql model)

end DbtProject

end PhloTransform.Dbt
