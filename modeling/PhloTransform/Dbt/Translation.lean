import PhloTransform.Dbt.PropertyTests
import PhloTransform.Library.Table
import Mathlib.Data.List.Duplicate

/-!
# The translation of a dbt project

Every model, singular test and seed of a dbt project is emitted as a file, and so are the tests
declared in property files, the settings of folders and those of the workspace.  A model whose
configuration has a schema of its own is moved into a folder of that schema.

Rendering the text of a file is a parameter, with the configuration and the issues it finds.

Main results:

- Theorem `DbtProject.mem_collidedNames_iff`: the names that are reported as collisions.
- Theorem `DbtProject.translateModel_file`: the models that are emitted, and where.
-/

namespace PhloTransform.Dbt

open Library

/-! ## Projects -/

/-- A discovered `.sql` resource. -/
structure DbtSqlFile where
  relPath : String
  dir : List String
  stem : String
  sql : String

/-- A discovered CSV seed file. -/
structure DbtSeed where
  relPath : String
  dir : List String
  name : String
  readError : Option String

/-- A parsed properties file. -/
structure DbtPropertyFile where
  relPath : String
  root : Yaml

structure DbtPackage where
  spec : String
  name : String

structure ProfileTarget where
  schema : Option String
  catalog : Option String
  database : Option String

structure DbtProject where
  name : String
  modelsTree : Yaml
  seedsTree : Yaml
  models : List DbtSqlFile
  propertyFiles : List DbtPropertyFile
  singularTests : List DbtSqlFile
  seeds : List DbtSeed
  packages : List DbtPackage
  profile : Option ProfileTarget

/-- What rendering the text of a file finds out about it. -/
structure LoweredSql extends Lowered where
  config : List (String × Lit)

/-- How texts are rendered and YAML values printed. -/
structure Renderer where
  lowerSql : DbtSqlFile → LoweredSql
  evalJinjaText : String → Option String
  debug : Yaml → String
  code_lowerSql : ∀ file, ∀ issue ∈ (lowerSql file).issues, issue.code ≠ "DBT013"

/-! ## Configuration -/

/-- Config keys that need no `+`. -/
def knownConfigKeys : List String :=
  ["materialized", "schema", "database", "alias", "tags", "meta", "enabled", "unique_key",
    "incremental_strategy", "partition_by", "on_schema_change", "grants", "contract", "pre-hook",
    "post-hook"]

/-- The config key that a key of the tree stands for. -/
def configKey (key : String) : Option String :=
  match key.toList with
  | '+' :: name => some (String.ofList name)
  | _ => if key ∈ knownConfigKeys then some key else none

abbrev Config (α : Type) := String → Option α

def Config.insert {α : Type} (config : Config α) (key : String) (value : α) : Config α :=
  Function.update config key (some value)

/-- `collect_config_keys`. -/
def collectConfigKeys (node : Yaml) (config : Config Yaml) : Config Yaml :=
  (node.asMapping.getD []).foldl
    (fun config entry =>
      match entry.1.asStr.bind configKey with
      | some name => config.insert name entry.2
      | none => config)
    config

/-- The descent of `dir_config` into the directories. -/
def descend (config : Config Yaml) : Option Yaml → List String → Config Yaml
  | _, [] => config
  | node, segment :: dir =>
    match node.bind (Yaml.get segment) with
    | some current => descend (collectConfigKeys current config) (some current) dir
    | none => config

/-- `dir_config`: the keys of the tree, of the project and of each directory. -/
def dirConfig (tree : Yaml) (project : String) (dir : List String) : Config Yaml :=
  let config := collectConfigKeys tree fun _ => none
  match tree.get project with
  | some node => descend (collectConfigKeys node config) (some node) dir
  | none => descend config none dir

def configStr (config : Config Yaml) (key : String) : Option String :=
  (config key).bind Yaml.asStr

def yamlStrList (value : Yaml) : Option (List String) :=
  match value with
  | .string text => some [text]
  | .sequence items => some (items.filterMap Yaml.asStr)
  | _ => none

/-- A text has an expression or a statement of Jinja in it. -/
def isTemplate (text : String) : Bool :=
  decide ("\x7b\x7b".toList <:+: text.toList) || decide ("\x7b%".toList <:+: text.toList)

namespace DbtProject

variable (r : Renderer) (p : DbtProject)

/-- The entries of a list of the property files. -/
def entries (key : String) : List Yaml :=
  p.propertyFiles.flatMap fun file => ((file.root.get key).bind Yaml.asSequence).getD []

/-- `collect_model_properties`: the last entry of a model. -/
def modelProperties (name : String) : Option Yaml :=
  (p.entries "models").reverse.find? fun entry => (entry.get "name").bind Yaml.asStr == some name

/-- `disabled_models`. -/
def disabledModels : List String :=
  (p.entries "models").filterMap fun entry =>
    if (((entry.get "config").bind (Yaml.get "enabled") <|> entry.get "enabled").bind Yaml.asBool)
        = some false then
      (entry.get "name").bind Yaml.asStr
    else none

/-- The configuration of the directory of a model. -/
def modelDirConfig (model : DbtSqlFile) : Config Yaml :=
  dirConfig p.modelsTree p.name model.dir

/-- `merged_model_config`: the directory, then the property file, then the file. -/
def mergedModelConfig (model : DbtSqlFile) : MergedConfig :=
  let ofDir : Config Lit := fun key => (p.modelDirConfig model key).map (Yaml.toLit r.debug)
  let ofProperties := ((((p.modelProperties model.stem).bind (Yaml.get "config")).bind
    Yaml.asMapping).getD []).foldl
      (fun config entry => Config.insert config (entry.1.key r.debug) (entry.2.toLit r.debug)) ofDir
  (r.lowerSql model).config.foldl (fun config entry => Config.insert config entry.1 entry.2)
    ofProperties

/-- The merged configuration with its `schema` rendered. -/
def modelConfig (model : DbtSqlFile) : MergedConfig :=
  let merged := p.mergedModelConfig r model
  match merged "schema" with
  | some (.str raw) =>
    if isTemplate raw then
      match (r.evalJinjaText raw).map fun text => String.ofList (Core.trim text.toList) with
      | some "" | none => Config.insert merged "schema" (.dict [])
      | some resolved => Config.insert merged "schema" (.str resolved)
    else merged
  | _ => merged

/-! ## Names -/

/-- The names registered so far, and those registered again. -/
def registerModel (registered : List (String × String) × List String) (model : DbtSqlFile) :
    List (String × String) × List String :=
  if model.stem ∈ registered.1.map Prod.fst then (registered.1, registered.2 ++ [model.stem])
  else
    (registered.1 ++ [(model.stem, logicalName (emittedSegments model.dir model.stem) p.name)],
      registered.2)

def registered : List (String × String) × List String :=
  p.models.foldl p.registerModel ([], [])

/-- Model stems that collided on emitted identity. -/
def collidedNames : List String :=
  p.registered.2

def modelTargets (name : String) : Option String :=
  if name ∈ p.collidedNames then none
  else (p.registered.1.find? fun target => target.1 == name).map Prod.snd

/-- `seed_schema`: the `seeds:` tree, then the schema of the profile. -/
def seedSchema (seed : DbtSeed) : Option String :=
  configStr (dirConfig p.seedsTree p.name seed.dir) "schema" <|> p.profile.bind ProfileTarget.schema

def seedTargets (name : String) : Option String :=
  (p.seeds.reverse.find? fun seed => seed.name == name).map fun seed =>
    match p.seedSchema seed with
    | some schema => schema ++ "." ++ seed.name
    | none => seed.name

/-- A declared table of a source. -/
structure SourceInfo where
  source : String
  name : String
  relation : String
  table : Yaml

def SourceInfo.key (info : SourceInfo) : String × String :=
  (info.source, info.name)

/-- The tables of one entry of `sources:`. -/
def sourceTables (entry : Yaml) : List SourceInfo :=
  match (entry.get "name").bind Yaml.asStr with
  | none => []
  | some source =>
    (((entry.get "tables").bind Yaml.asSequence).getD []).filterMap fun table =>
      (table.get "name").bind Yaml.asStr |>.map fun name =>
        let identifier := ((table.get "identifier").bind Yaml.asStr).getD name
        let schema := ((table.get "schema").bind Yaml.asStr <|>
          (entry.get "schema").bind Yaml.asStr).getD source
        let relation := schema ++ "." ++ identifier
        { source, name, table,
          relation :=
            match (table.get "database").bind Yaml.asStr <|>
              (entry.get "database").bind Yaml.asStr with
            | some database => database ++ "." ++ relation
            | none => relation }

/-- `collect_sources`: a table that is declared again replaces the one before. -/
def sources : Table SourceInfo.key :=
  ((p.entries "sources").flatMap sourceTables).foldl Table.put Table.empty

/-- The last of the parts between slashes. -/
def lastPart (text : List Char) : List Char :=
  (text.reverse.takeWhile fun c => c != '/' && c != '\\').reverse

/-- `trim_end_matches(".git")` on the reversed text. -/
def stripGit : List Char → List Char
  | 't' :: 'i' :: 'g' :: '.' :: rest => stripGit rest
  | text => text

/-- `spec_short_name`: the package name derivable from a declaration. -/
def specShortName (spec : String) : String :=
  let trimmed := (spec.toList.reverse.dropWhile (· == '/')).reverse
  String.ofList ((stripGit (lastPart trimmed).reverse).reverse.map fun c =>
    if c = '-' then '_' else c)

def hasPackage (name : String) : Bool :=
  p.packages.any fun package => package.name == name || specShortName package.spec == name

def testContext : TestContext where
  modelTargets := p.modelTargets
  seedTargets := p.seedTargets
  sources := fun key => (p.sources.get? key).map SourceInfo.relation
  hasPackage := p.hasPackage
  debug := r.debug

end DbtProject

/-! ## Outcomes -/

inductive Classification where
  | clean
  | review
  | unsupported
deriving Repr, DecidableEq

inductive ResourceKind where
  | model
  | source
  | singularTest
  | seed
deriving Repr, DecidableEq

structure ResourceOutcome where
  kind : ResourceKind
  name : String
  sourcePath : Option String
  classification : Classification
  emittedPath : Option String
  issues : List MigrationIssue
deriving Repr, DecidableEq

namespace MigrationIssue

def untranslatedConfig (message : String) : MigrationIssue := ⟨"DBT007", message⟩

def materialization (message : String) : MigrationIssue := ⟨"DBT008", message⟩

def disabled (message : String) : MigrationIssue := ⟨"DBT011", message⟩

/-- Two resources map to the same emitted identity. -/
def nameCollision (stem : String) : MigrationIssue :=
  ⟨"DBT013", "model name `" ++ stem ++ "` maps to the same emitted identity as another model"⟩

def seed (message : String) : MigrationIssue := ⟨"DBT015", message⟩

end MigrationIssue

def classify (issues : List MigrationIssue) : Classification :=
  if issues.isEmpty then .clean else .review

/-! ## Settings of folders -/

/-- Settings of a `transform.toml`. -/
structure RootToml where
  materialized : Option String
  tags : List String
  folders : List (String × String × String)

def RootToml.isEmpty (toml : RootToml) : Bool :=
  toml.materialized.isNone && toml.tags.isEmpty && toml.folders.isEmpty

/-- One change of a `transform.toml`. -/
inductive TomlSetting where
  | entry
  | materialized (value : String)
  | tag (value : String)
  | folder (folder key value : String)

def RootToml.set (toml : RootToml) : TomlSetting → RootToml
  | .entry => toml
  | .materialized value => { toml with materialized := toml.materialized <|> some value }
  | .tag value => if value ∈ toml.tags then toml else { toml with tags := toml.tags ++ [value] }
  | .folder folder key value =>
    if toml.folders.any fun setting => setting.1 == folder && setting.2.1 == key then toml
    else { toml with folders := toml.folders ++ [(folder, key, value)] }

abbrev RootTomls := Table (Prod.fst : String × RootToml → String)

/-- `root_tomls.entry(namespace).or_default()`, and the change. -/
def setRootToml (tomls : RootTomls) (edit : String × TomlSetting) : RootTomls :=
  let toml := ((tomls.get? edit.1).map Prod.snd).getD ⟨none, [], []⟩
  tomls.put (edit.1, toml.set edit.2)

/-! ## Models -/

/-- What translating a model yields. -/
structure ModelTranslation where
  outcome : ResourceOutcome
  file : Option String
  settings : List (String × TomlSetting)
  tests : List GeneratedTest
  contract : Option String

/-- Config keys whose presence forces a review, in their order. -/
def reviewConfigKeys : List String :=
  ["database", "grants", "post-hook", "post_hook", "pre-hook", "pre_hook"]

namespace DbtProject

variable (r : Renderer) (p : DbtProject)
variable {model : DbtSqlFile}
variable {stems : List String}

/-- `schema` as a literal that is not the derived one. -/
def schemaFolder (model : DbtSqlFile) : Option String :=
  match p.modelConfig r model "schema" with
  | some (.str schema) =>
    let derived := (configStr (p.modelDirConfig model) "schema" <|>
      model.dir.head?.map sanitizeSegment).getD p.name
    if schema = derived then none else some schema
  | _ => none

/-- The names of the folders and the file of an emitted model. -/
def placement (model : DbtSqlFile) : List String :=
  model.dir ++ (p.schemaFolder r model).toList ++ [model.stem]

/-- The path of an emitted model: a schema of its own is a leaf folder. -/
def modelPath (model : DbtSqlFile) : String :=
  match p.schemaFolder r model with
  | none => emittedPath (emittedSegments model.dir model.stem)
  | some schema =>
    emittedPath (model.dir.map sanitizeSegment ++
      [sanitizeSegment schema, sanitizeSegment model.stem])

/-- Settings of the directory of a model in the `transform.toml` of its namespace. -/
def dirSettings (model : DbtSqlFile) : List (String × TomlSetting) :=
  match model.dir with
  | [] => []
  | first :: rest =>
    let config := p.modelDirConfig model
    let folder := "/".intercalate (first :: rest)
    let materialized := (configStr config "materialized").toList.map fun value =>
      if rest = [] then TomlSetting.materialized value
      else .folder folder "materialized" ("\"" ++ value ++ "\"")
    let tags := if rest = [] then ((config "tags").bind yamlStrList).getD [] else []
    let schema := (configStr config "schema").toList.map fun value =>
      TomlSetting.folder folder "schema" ("\"" ++ value ++ "\"")
    (TomlSetting.entry :: materialized ++ tags.map TomlSetting.tag ++ schema).map fun setting =>
      (sanitizeSegment first, setting)

/-- The setting of the leaf folder that a model is moved into. -/
def relocationSettings (model : DbtSqlFile) : List (String × TomlSetting) :=
  (p.schemaFolder r model).toList.map fun schema =>
    let segment := sanitizeSegment schema
    ((model.dir.head?.map sanitizeSegment).getD segment,
      .folder (if model.dir = [] then segment else "/".intercalate model.dir ++ "/" ++ segment)
        "schema" ("\"" ++ schema ++ "\""))

/-- Issues of a materialisation that is not `snapshot`. -/
def materializationIssues (materialized : String) : List MigrationIssue :=
  if materialized ∈ ["view", "table", "incremental", "ephemeral"] then []
  else [.materialization
    ("custom materialisation `" ++ materialized ++ "` cannot be verified")]

def incrementalIssues (merged : MergedConfig) (lowered : Lowered) : List MigrationIssue :=
  let strategy := merged.incrementalStrategy.getD "default"
  if merged.materialized = "incremental" ∧ lowered.incrementalReduced = false ∧
      directive strategy merged.uniqueKey merged.partitionBy lowered.windowColumn = none then
    [.incrementalPattern ("incremental strategy `" ++ strategy ++ "` has no native equivalent")]
  else []

/-- Issues of config keys that have no native equivalent. -/
def configIssues (model : DbtSqlFile) : List MigrationIssue :=
  let merged := p.modelConfig r model
  let ofProject := dirConfig p.modelsTree p.name []
  let schemaTranslated :=
    (p.modelDirConfig model "schema").isSome || (ofProject "schema").isSome
  let dropped := reviewConfigKeys.filter fun key =>
    (merged key).isSome && !(key == "database" && (ofProject "database").isSome)
  (dropped.map fun key => .untranslatedConfig
      ("config `" ++ key ++ "` has no native equivalent and was dropped")) ++
    match merged "schema" with
    | some (.str _) | none => []
    | some _ =>
      if schemaTranslated then []
      else [.untranslatedConfig
        "per-model `schema` is dynamic; it cannot be evaluated statically"]

/-- The contract of a model is enforced. -/
def contractEnforced (merged : MergedConfig) : Bool :=
  match (merged "contract").bind (Lit.field "enforced") with
  | some (.bool true) => true
  | _ => false

/-- Issues of a model that declares versions. -/
def versionIssues (entry : Yaml) : List MigrationIssue :=
  if (entry.get "versions").isSome || (entry.get "latest_version").isSome then
    [.untranslatedConfig "model versions have no native equivalent"]
  else []

/-- Issues of a model whose name is registered again. -/
def collisionIssues (model : DbtSqlFile) : List MigrationIssue :=
  if model.stem ∈ p.collidedNames then [.nameCollision model.stem] else []

/-- The outcome of a model of a class that is not emitted. -/
def unsupportedModel (model : DbtSqlFile) (issues : List MigrationIssue)
    (settings : List (String × TomlSetting)) : ModelTranslation where
  outcome :=
    { kind := .model, name := "model." ++ p.name ++ "." ++ model.stem,
      sourcePath := some model.relPath, classification := .unsupported, emittedPath := none,
      issues }
  file := none
  settings := settings
  tests := []
  contract := none

/-- The tests that the property file declares on a model. -/
def modelTests (model : DbtSqlFile) : TestOutput :=
  match p.modelProperties model.stem with
  | none => .none
  | some entry =>
    (p.testContext r).emitPropertyTests entry
      (logicalName (emittedSegments model.dir model.stem) p.name)
      (p.modelConfig r model).uniqueKey

def modelIssues (model : DbtSqlFile) : List MigrationIssue :=
  let merged := p.modelConfig r model
  p.collisionIssues model ++ (r.lowerSql model).issues ++
    materializationIssues merged.materialized ++
    incrementalIssues merged (r.lowerSql model).toLowered ++ p.configIssues r model ++
    (p.modelTests r model).issues ++
    ((p.modelProperties model.stem).toList.flatMap versionIssues)

def emittedModel (model : DbtSqlFile) : ModelTranslation where
  outcome :=
    { kind := .model, name := "model." ++ p.name ++ "." ++ model.stem,
      sourcePath := some model.relPath, classification := classify (p.modelIssues r model),
      emittedPath := some (p.modelPath r model), issues := p.modelIssues r model }
  file := some (p.modelPath r model)
  settings := p.dirSettings model ++ p.relocationSettings r model
  tests := (p.modelTests r model).tests
  contract :=
    if contractEnforced (p.modelConfig r model) then
      some (logicalName (emittedSegments model.dir model.stem) p.name)
    else none

/-- `enabled` is the literal false. -/
def isSwitchedOff (merged : MergedConfig) : Bool :=
  match merged "enabled" with
  | some (.bool false) => true
  | _ => false

/-- `translate_model`. -/
def translateModel (model : DbtSqlFile) : ModelTranslation :=
  let merged := p.modelConfig r model
  if model.stem ∈ p.disabledModels then
    p.unsupportedModel model
      [.disabled "model is disabled (`enabled: false`); Phlo has no disabled state"] []
  else if isSwitchedOff merged then
    p.unsupportedModel model (p.collisionIssues model ++ (r.lowerSql model).issues ++
      [.disabled "model is disabled (`enabled = false`); Phlo has no disabled state"]) []
  else if merged.materialized = "snapshot" then
    p.unsupportedModel model (p.collisionIssues model ++ (r.lowerSql model).issues ++
        [.materialization "`snapshot` materialisation is not supported"])
      (p.dirSettings model ++ p.relocationSettings r model)
  else p.emittedModel r model

/-! ## Other resources -/

/-- A file below a root under its sanitised names. -/
def resourcePath (root : String) (dir : List String) (name extension : String) : String :=
  segmentsPath root (dir.map sanitizeSegment ++ [sanitizeSegment name]) extension

/-- `translate_singular_test`. -/
def translateSingularTest (test : DbtSqlFile) : ResourceOutcome × String :=
  let path := resourcePath "tests" test.dir test.stem ".sql"
  let issues := (r.lowerSql test).issues
  ({ kind := .singularTest, name := test.stem, sourcePath := some test.relPath,
     classification := classify issues, emittedPath := some path, issues }, path)

/-- Seeds are copied under `seeds/`. -/
def translateSeed (seed : DbtSeed) : ResourceOutcome × Option String :=
  let path := resourcePath "seeds" seed.dir seed.name ".csv"
  match seed.readError with
  | none =>
    ({ kind := .seed, name := seed.name, sourcePath := some seed.relPath,
       classification := .clean, emittedPath := some path, issues := [] }, some path)
  | some error =>
    ({ kind := .seed, name := seed.name, sourcePath := some seed.relPath,
       classification := .review, emittedPath := none,
       issues := [.seed ("could not read seed CSV: " ++ error)] }, none)

/-- The seed entries of property files attach tests to the seeds. -/
def translateSeedEntry (file : DbtPropertyFile) (entry : Yaml) :
    ResourceOutcome × List GeneratedTest :=
  let name := ((entry.get "name").bind Yaml.asStr).getD "(unnamed)"
  match p.seedTargets name with
  | none =>
    ({ kind := .seed, name, sourcePath := some file.relPath, classification := .review,
       emittedPath := none,
       issues := [.seed "declared seed has no matching CSV under the seed paths"] }, [])
  | some relation =>
    let output := (p.testContext r).emitPropertyTests entry relation []
    -- a seed has no file for the directives, so they become tests
    let nullScans := output.notNull.map fun column =>
      GeneratedTest.mk (replaceDots relation) column .notNull
    ({ kind := .seed, name, sourcePath := some file.relPath,
       classification := classify output.issues, emittedPath := none,
       issues := output.issues }, output.tests ++ nullScans)

/-- The seed entries of all property files. -/
def seedEntries : List (ResourceOutcome × List GeneratedTest) :=
  p.propertyFiles.flatMap fun file =>
    (((file.root.get "seeds").bind Yaml.asSequence).getD []).map (p.translateSeedEntry r file)

/-- Sources resolve to relations, and their tests to files. -/
def translateSource (info : SourceInfo) : ResourceOutcome × List GeneratedTest :=
  let output := (p.testContext r).emitSourceTests info.source info.name info.table
  ({ kind := .source, name := info.source ++ "." ++ info.name, sourcePath := none,
     classification := .clean, emittedPath := none, issues := output.issues }, output.tests)

/-! ## The files -/

/-- Settings of the workspace. -/
structure PhloToml where
  defaultNamespace : Option String
  defaultMaterialization : Option String
  defaultCatalog : Option String
  defaultSchema : Option String
  seedsSchema : Option String
  seedSchemas : List (String × String)
  modelSections : List String

def PhloToml.isEmpty (toml : PhloToml) : Bool :=
  toml.defaultNamespace.isNone && toml.defaultMaterialization.isNone &&
    toml.defaultCatalog.isNone && toml.defaultSchema.isNone && toml.seedsSchema.isNone &&
    toml.seedSchemas.isEmpty && toml.modelSections.isEmpty

/-- The schemas of the seeds that have one of their own. -/
def seedSchemas : List (String × String) :=
  p.seeds.filterMap fun seed =>
    (configStr (dirConfig p.seedsTree p.name seed.dir) "schema").map fun schema =>
      (seed.name, schema)

/-- The schema that all listed seeds have. -/
def sharedSchema : List (String × String) → Option String
  | [] => none
  | first :: rest => if rest.all fun other => other.2 == first.2 then some first.2 else none

def phloToml : PhloToml :=
  let config := dirConfig p.modelsTree p.name []
  let ofProfile (field : ProfileTarget → Option String) := p.profile.bind field
  let shared := sharedSchema p.seedSchemas
  { defaultNamespace :=
      if p.models.any fun model => model.dir.isEmpty then some (sanitizeSegment p.name) else none
    defaultMaterialization := (configStr config "materialized").filter (· != "view")
    defaultCatalog := configStr config "database" <|> ofProfile ProfileTarget.catalog <|>
      ofProfile ProfileTarget.database
    defaultSchema := configStr config "schema" <|> ofProfile ProfileTarget.schema
    seedsSchema := shared
    seedSchemas := if shared.isSome then [] else p.seedSchemas
    modelSections := p.models.filterMap fun model => (p.translateModel r model).contract }

def rootTomls : RootTomls :=
  (p.models.flatMap fun model => (p.translateModel r model).settings).foldl setRootToml .empty

def rootTomlPath (ns : String) : String :=
  "transforms/" ++ ns ++ "/transform.toml"

/-- The test files of models, of seed entries and of sources. -/
def generatedTests : List GeneratedTest :=
  (p.models.flatMap fun model => (p.translateModel r model).tests) ++
    (p.seedEntries r).flatMap Prod.snd ++
    p.sources.rows.flatMap fun info => (p.translateSource r info).2

/-- The output of translating a project: the paths of its files, and the outcomes. -/
structure Translation where
  files : List String
  entries : List ResourceOutcome

/-- The files but for generated tests, in the order in which they are made. -/
def emittedFiles : List String :=
  (p.models.filterMap fun model => (p.translateModel r model).file) ++
    (p.singularTests.map fun test => (translateSingularTest r test).2) ++
    (p.seeds.filterMap fun seed => (translateSeed seed).2) ++
    (((p.rootTomls r).rows.filter fun toml => !toml.2.isEmpty).map fun toml =>
      rootTomlPath toml.1) ++
    (if (p.phloToml r).isEmpty then [] else ["phlo.toml"])

def sortPaths (files : List String) : List String :=
  files.mergeSort fun a b => decide (a ≤ b)

/-- Translate a loaded dbt project into a native Phlo workspace. -/
def translate : Translation where
  files := sortPaths
    (sortPaths (p.emittedFiles r) ++ (p.generatedTests r).map GeneratedTest.relPath)
  entries :=
    (p.models.map fun model => (p.translateModel r model).outcome) ++
      (p.seedEntries r).map Prod.fst ++
      (p.sources.rows.map fun info => (p.translateSource r info).1) ++
      (p.singularTests.map fun test => (translateSingularTest r test).1) ++
      p.seeds.map fun seed => (translateSeed seed).1

/-! ## Names that are registered again -/

/-- The registered names so far: each once, and again those that come twice. -/
structure Registered (stems : List String) (registered : List (String × String) × List String) :
    Prop where
  mem_iff : ∀ s, s ∈ registered.1.map Prod.fst ↔ s ∈ stems
  collided_iff : ∀ s, s ∈ registered.2 ↔ List.Duplicate s stems

theorem duplicate_append_singleton {s t : String} :
    List.Duplicate s (stems ++ [t]) ↔ List.Duplicate s stems ∨ s = t ∧ t ∈ stems := by
  simp only [List.duplicate_iff_two_le_count, List.count_append, List.count_singleton]
  by_cases h : t = s
  · subst h
    have hmem : t ∈ stems ↔ 0 < stems.count t := List.count_pos_iff.symm
    rw [hmem, if_pos (beq_self_eq_true t), eq_self_iff_true, true_and]
    omega
  · rw [if_neg (by simpa using h)]
    have hne : s ≠ t := fun heq => h heq.symm
    simp [hne]

theorem Registered.register {registered : List (String × String) × List String}
    (h : Registered stems registered) (model : DbtSqlFile) :
    Registered (stems ++ [model.stem]) (p.registerModel registered model) := by
  unfold registerModel
  split
  · next hmem =>
      rw [h.mem_iff] at hmem
      refine ⟨fun s => ?_, fun s => ?_⟩
      · rw [h.mem_iff, List.mem_append, List.mem_singleton]
        constructor
        · exact .inl
        · rintro (hs | rfl)
          · exact hs
          · exact hmem
      · rw [List.mem_append, List.mem_singleton, h.collided_iff, duplicate_append_singleton]
        simp [hmem]
  · next hmem =>
      rw [h.mem_iff] at hmem
      refine ⟨fun s => ?_, fun s => ?_⟩
      · rw [List.map_append, List.mem_append, List.mem_append, h.mem_iff]
        simp
      · rw [h.collided_iff, duplicate_append_singleton]
        simp [hmem]

theorem registered_foldl (models : List DbtSqlFile) :
    Registered (models.map DbtSqlFile.stem) (models.foldl p.registerModel ([], [])) := by
  induction models using List.reverseRecOn with
  | nil => exact ⟨by simp, by simp⟩
  | append_singleton models model ih =>
    rw [List.foldl_append, List.map_append]
    exact ih.register p model

/-- The names that are reported as collisions: those of two model files. -/
theorem mem_collidedNames_iff {s : String} :
    s ∈ p.collidedNames ↔ List.Duplicate s (p.models.map DbtSqlFile.stem) :=
  (p.registered_foldl p.models).collided_iff s

/-! ## Models that are emitted -/

/-- A model is emitted unless it is disabled or a snapshot. -/
def isEmitted (model : DbtSqlFile) : Bool :=
  let merged := p.modelConfig r model
  !(decide (model.stem ∈ p.disabledModels) || isSwitchedOff merged ||
    merged.materialized == "snapshot")

variable {r p}

theorem translateModel_of_isEmitted (h : p.isEmitted r model = true) :
    p.translateModel r model = p.emittedModel r model := by
  simp only [isEmitted, Bool.not_eq_true', Bool.or_eq_false_iff, decide_eq_false_iff_not,
    beq_eq_false_iff_ne] at h
  obtain ⟨⟨hlisted, hoff⟩, hsnapshot⟩ := h
  rw [translateModel, if_neg hlisted, if_neg (by simp [hoff]), if_neg hsnapshot]

theorem translateModel_of_not_isEmitted (h : p.isEmitted r model = false) :
    ∃ issues settings, p.translateModel r model = p.unsupportedModel model issues settings := by
  unfold translateModel
  dsimp only
  split
  · exact ⟨_, _, rfl⟩
  · next hlisted =>
      split
      · exact ⟨_, _, rfl⟩
      · next hoff =>
          split
          · exact ⟨_, _, rfl⟩
          · next hsnapshot => simp [isEmitted, hlisted, hoff, hsnapshot] at h

theorem translateModel_file (model : DbtSqlFile) :
    (p.translateModel r model).file =
      if p.isEmitted r model then some (p.modelPath r model) else none := by
  cases h : p.isEmitted r model with
  | true => rw [translateModel_of_isEmitted h, if_pos rfl, emittedModel]
  | false =>
    obtain ⟨issues, settings, heq⟩ := translateModel_of_not_isEmitted h
    rw [heq, unsupportedModel]
    rfl

theorem modelPath_eq (model : DbtSqlFile) :
    p.modelPath r model =
      segmentsPath "transforms" ((p.placement r model).map sanitizeSegment) ".sql" := by
  unfold modelPath placement
  cases p.schemaFolder r model with
  | none => simp [emittedPath, emittedSegments_eq]
  | some schema => simp [emittedPath]

theorem clean_iff :
    (p.translateModel r model).outcome.classification = .clean ↔
      p.isEmitted r model = true ∧ p.modelIssues r model = [] := by
  cases h : p.isEmitted r model with
  | true =>
    rw [translateModel_of_isEmitted h]
    simp [emittedModel, classify]
  | false =>
    obtain ⟨issues, settings, heq⟩ := translateModel_of_not_isEmitted h
    rw [heq]
    simp [unsupportedModel]

end DbtProject

end PhloTransform.Dbt
