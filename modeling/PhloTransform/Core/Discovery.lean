import Mathlib.Data.List.Dedup
import PhloTransform.Core.Identity
import PhloTransform.Library.Slots

/-!
# Discovery

A workspace is loaded from its files: the model SQL below its transform roots, the SQL of its
tests, `phlo.toml`, the `transform.toml` of the roots, and the CSV files of its seeds.

Main results:

- Theorem `readRootConfig_congr`, `deriveIdentity_congr`: what a file's identity is read from.
- Theorem `loadProject_congr`: a project is read from SQL and TOML files that are not below an
  ignored directory, and from seeds.
-/

namespace PhloTransform.Core.Discovery

open Library (except_bind_eq_ok except_map_eq_ok)

/-- The components of a workspace-relative path. -/
abbrev Path := List String

/-! ## Paths -/

/-- A file name before and after its last dot; a name that only starts with one has none. -/
def splitExtension (name : String) : Option (String × String) :=
  let extension := (name.toList.reverse.takeWhile (· != '.')).reverse
  let before := (name.toList.reverse.dropWhile (· != '.')).tail.reverse
  if before.isEmpty then none else some (String.ofList before, String.ofList extension)

/-- `Path::extension`. -/
def extension (path : Path) : Option String :=
  path.getLast? >>= fun name => (splitExtension name).map Prod.snd

/-- `Path::file_stem` of a file name. -/
def fileStem (name : String) : String :=
  match splitExtension name with
  | some (stem, _) => stem
  | none => name

def displayPath (path : Path) : String :=
  ("/".intercalate path).map fun c => if c = '\\' then '/' else c

/-- The directories that no walk goes into. -/
def isIgnored (name : String) : Bool :=
  name == ".git" || name == "target" || name == ".phlo" || name == "node_modules"

def isSqlPath (path : Path) : Bool :=
  extension path == some "sql" && !path.dropLast.any isIgnored

/-- A CSV file below `seeds`. -/
def isSeedPath (path : Path) : Bool :=
  extension path == some "csv" && path.head? == some "seeds"

/-- `Vec::sort` then `Vec::dedup`. -/
def sortDedup (values : List String) : List String :=
  (values.mergeSort fun a b => decide (a ≤ b)).dedup

/-- `Vec<PathBuf>::sort`. -/
def sortPaths (paths : List Path) : List Path :=
  paths.mergeSort fun a b => decide (a ≤ b)

/-! ## Workspaces -/

/-- A file, or a link to one. -/
structure File where
  path : Path
  modified : Int
  linked : Bool
  bytes : List UInt8

/-- The files of a workspace, in the order in which the directories list them. -/
structure Workspace where
  root : String
  name : String
  files : List File

namespace Workspace

variable (workspace : Workspace)

def bytes? (path : Path) : Option (List UInt8) :=
  (workspace.files.find? fun file => file.path == path).map File.bytes

def isFile (path : Path) : Bool := (workspace.bytes? path).isSome

/-- `std::fs::read_to_string`. -/
def readToString (path : Path) : Except String String :=
  match workspace.bytes? path with
  | none => .error "No such file or directory (os error 2)"
  | some bytes =>
    match String.fromUTF8? ⟨bytes.toArray⟩ with
    | none => .error "stream did not contain valid UTF-8"
    | some text => .ok text

/-- The SQL files of the walk of `walk_sql_files`, before the globs are asked. -/
def sqlWalk : List Path :=
  (workspace.files.filter fun file => !file.linked && isSqlPath file.path).map File.path

def csvWalk : List Path :=
  (workspace.files.filter fun file => !file.linked && isSeedPath file.path).map File.path

end Workspace

/-! ## Diagnostics -/

inductive Severity where
  | error
  | warning
deriving DecidableEq

structure Diagnostic where
  code : String
  severity : Severity
  message : String
  path : Option String := none
  labels : List String := []
  help : Option String := none
deriving DecidableEq

namespace Diagnostic

def error (code message : String) : Diagnostic :=
  { code, severity := .error, message }

def warning (code message : String) : Diagnostic :=
  { code, severity := .warning, message }

def withPath (diagnostic : Diagnostic) (path : String) : Diagnostic :=
  { diagnostic with path := some path }

end Diagnostic

def configInvalid : String := "CONFIG001"
def projectDuplicateNamespace : String := "PROJECT003"
def projectInvalidModelId : String := "PROJECT004"
def projectUnresolvablePath : String := "PROJECT005"
def projectFileRead : String := "PROJECT006"
def projectSeedNameCollision : String := "PROJECT008"
def projectNoRoots : String := "PROJECT009"

/-! ## Settings -/

/-- What discovery uses of `phlo.toml`, and the rest of it. -/
structure PhloConfig (Rest : Type) where
  includes : List String
  excludes : List String
  defaultNamespace : Option String
  seedsSchema : Option String
  seed : List (String × Option String)
  rest : Rest

/-- What discovery uses of a `transform.toml`, and the rest of it. -/
structure TransformRootConfig (Rest : Type) where
  ns : Option String
  rest : Rest

inductive RootNamespaceStrategy where
  | fixed (ns : Namespace)
  | firstSegment
deriving DecidableEq

inductive RootKind where
  | globalTransforms
  | workflow
  | custom
deriving DecidableEq

/-- What the path of a file says about it. -/
structure RawDerived where
  ns : Namespace
  path : List String
  rootDir : Path
  rootStrategy : RootNamespaceStrategy
  rootRelative : List String
  namespaceDir : Path
  kind : RootKind

structure DerivedIdentity (Rest : Type) where
  ns : Namespace
  path : List String
  rootDir : Path
  rootStrategy : RootNamespaceStrategy
  rootRelative : List String
  kind : RootKind
  rootConfig : TransformRootConfig Rest

structure DerivedFile (Rest : Type) where
  relativePath : Path
  identity : DerivedIdentity Rest

/-- Globs, TOML and digests, and what is made of a text and its settings once it has been read. -/
structure Frontend (Config Root Defaults Model : Type) where
  phloConfig : String → Except String (PhloConfig Config)
  noPhloConfig : Config
  rootConfig : String → Except String (TransformRootConfig Root)
  noRootConfig : Root
  glob : String → Except String (String → Bool)
  globsetError : List String → Option String
  /-- `workspace_defaults`, and the policy for cross-workflow dependencies. -/
  defaults : PhloConfig Config → Defaults × List Diagnostic
  /-- What `lower_model` makes of the SQL of a root's file, and its `[model.<name>]` section. -/
  model : PhloConfig Config → Nat → DerivedFile Root → String → Except Diagnostic Model
  modelId : Model → ModelId
  digest : List UInt8 → String
  seedColumns : List UInt8 → List String

structure TransformRoot where
  id : Nat
  path : Path
  strategy : RootNamespaceStrategy
  kind : RootKind

structure SemanticTest where
  name : String
  sql : String
  path : Path

structure SemanticSeed where
  name : String
  path : Path
  schema : Option String
  contentHash : String
  columns : List String
deriving DecidableEq

structure SemanticProject (Defaults Model : Type) where
  workspaceRoot : String
  roots : List TransformRoot
  models : List Model
  tests : List SemanticTest
  seeds : List SemanticSeed
  defaults : Defaults
  diagnostics : List Diagnostic

def defaultIncludes : List String := ["transforms/**", "workflows/*/transforms/**"]

def defaultExcludes : List String :=
  ["**/target/**", "**/.phlo/**", "**/.git/**", "**/node_modules/**"]

section

variable {Config Root Defaults Model : Type} (frontend : Frontend Config Root Defaults Model)
variable (workspace : Workspace)
variable {path : Path} {stem : String} {config : PhloConfig Config} {derived : RawDerived}
variable {directories : List String} {file : DerivedFile Root} {files : List Path}

/-! ## Reading settings -/

/-- Read `phlo.toml` if present. -/
def readPhloConfig : Except Diagnostic (PhloConfig Config) :=
  if workspace.isFile ["phlo.toml"] then
    match workspace.readToString ["phlo.toml"] with
    | .error error =>
      .error ((Diagnostic.error configInvalid
        ("could not read phlo.toml: " ++ error)).withPath "phlo.toml")
    | .ok text =>
      match frontend.phloConfig text with
      | .error error =>
        .error ((Diagnostic.error configInvalid
          ("invalid phlo.toml: " ++ error)).withPath "phlo.toml")
      | .ok config => .ok config
  else
    .ok { includes := [], excludes := [], defaultNamespace := none, seedsSchema := none,
          seed := [], rest := frontend.noPhloConfig }

def transformToml (dir : Path) : Path := dir ++ ["transform.toml"]

/-- Read an optional `transform.toml` at a root directory. -/
def readRootConfig (rootDir : Path) : Except Diagnostic (TransformRootConfig Root) :=
  if workspace.isFile (transformToml rootDir) then
    match workspace.readToString (transformToml rootDir) with
    | .error error =>
      .error ((Diagnostic.error configInvalid
        ("could not read transform.toml: " ++ error)).withPath
          (displayPath (transformToml rootDir)))
    | .ok text =>
      match frontend.rootConfig text with
      | .error error =>
        .error ((Diagnostic.error configInvalid
          ("invalid transform.toml: " ++ error)).withPath
            (displayPath (transformToml rootDir)))
      | .ok config => .ok config
  else .ok { ns := none, rest := frontend.noRootConfig }

/-! ## Identities -/

def unresolvable (relativePath : Path) (reason : String) : Diagnostic :=
  (Diagnostic.error projectUnresolvablePath
    ("could not derive a transform root: " ++ reason)).withPath (displayPath relativePath)

def validateNamespace (value : String) (relativePath : Path) : Except Diagnostic Namespace :=
  if isSegment value then .ok value
  else
    .error ((Diagnostic.error configInvalid
      ("`" ++ value ++ "` is not a valid namespace")).withPath (displayPath relativePath))

def deriveFromGlobalRoot (relativePath : Path) (directories : List String) (stem : String)
    (config : PhloConfig Config) : Except Diagnostic RawDerived :=
  match directories with
  | _ :: second :: below => do
    let ns ← validateNamespace second relativePath
    return { ns, path := below ++ [stem], rootDir := ["transforms"],
             rootStrategy := .firstSegment, rootRelative := second :: below ++ [stem],
             namespaceDir := ["transforms", second], kind := .globalTransforms }
  | _ => do
    let ns ← validateNamespace (config.defaultNamespace.getD "default") relativePath
    return { ns, path := [stem], rootDir := ["transforms"], rootStrategy := .firstSegment,
             rootRelative := [stem], namespaceDir := ["transforms"], kind := .globalTransforms }

def deriveFromNamedRoot (relativePath : Path) (directories : List String)
    (transformsIndex : Nat) (stem : String) : Except Diagnostic RawDerived := do
  let ns ← validateNamespace (directories.getD (transformsIndex - 1) "") relativePath
  let rootDir := directories.take (transformsIndex + 1)
  let path := directories.drop (transformsIndex + 1) ++ [stem]
  return { ns, path, rootDir, rootStrategy := .fixed ns, rootRelative := path,
           namespaceDir := rootDir,
           kind := if rootDir.head? = some "workflows" then .workflow else .custom }

/-- The nearest ancestor directory with a `transform.toml` is the root. -/
def deriveFromConfiguredRoot (relativePath : Path) (directories : List String)
    (stem : String) : Except Diagnostic RawDerived :=
  match (List.range directories.length).reverse.find? fun index =>
      workspace.isFile (transformToml (directories.take (index + 1))) with
  | none => .error (unresolvable relativePath "no transform root could be derived from the path")
  | some index =>
    let candidate := directories.take (index + 1)
    match readRootConfig frontend workspace candidate with
    | .error _ => .error (unresolvable relativePath "invalid transform.toml")
    | .ok configured => do
      let ns ← validateNamespace (configured.ns.getD (directories.getD index "")) relativePath
      let path := directories.drop (index + 1) ++ [stem]
      return { ns, path, rootDir := candidate, rootStrategy := .fixed ns, rootRelative := path,
               namespaceDir := candidate, kind := .custom }

/-- The root that the directories of a file put it in. -/
def deriveRaw (relativePath : Path) (config : PhloConfig Config) :
    Except Diagnostic RawDerived :=
  match relativePath.getLast? with
  | none => .error (unresolvable relativePath "empty path")
  | some filename =>
    let stem := fileStem filename
    let directories := relativePath.dropLast
    match directories.findIdx? (· == "transforms") with
    | some 0 => deriveFromGlobalRoot relativePath directories stem config
    | some index => deriveFromNamedRoot relativePath directories index stem
    | none => deriveFromConfiguredRoot frontend workspace relativePath directories stem

def deriveIdentity (relativePath : Path) (config : PhloConfig Config) :
    Except Diagnostic (DerivedIdentity Root) := do
  let derived ← deriveRaw frontend workspace relativePath config
  let rootConfig ← readRootConfig frontend workspace derived.namespaceDir
  -- A local `transform.toml` may override the namespace for the subtree.
  let ns ← match rootConfig.ns with
    | some overrideNamespace => validateNamespace overrideNamespace relativePath
    | none => .ok derived.ns
  let rootStrategy := match derived.rootStrategy with
    | .fixed _ => RootNamespaceStrategy.fixed ns
    | .firstSegment => .firstSegment
  return { ns, path := derived.path, rootDir := derived.rootDir, rootStrategy,
           rootRelative := derived.rootRelative, kind := derived.kind, rootConfig }

/-! ## Walks -/

def buildGlob (pattern : String) : Except Diagnostic (String → Bool) :=
  match frontend.glob pattern with
  | .ok glob => .ok glob
  | .error error =>
    .error ((Diagnostic.error configInvalid
      ("invalid glob `" ++ pattern ++ "`: " ++ error)).withPath "phlo.toml")

def buildGlobset (patterns : List String) : Except Diagnostic (String → Bool) := do
  let globs ← patterns.mapM (buildGlob frontend)
  match frontend.globsetError patterns with
  | some error =>
    .error ((Diagnostic.error configInvalid
      ("invalid discovery globs: " ++ error)).withPath "phlo.toml")
  | none => return fun path => globs.any fun glob => glob path

def combinedIncludes (config : PhloConfig Config) : List String :=
  sortDedup (defaultIncludes ++ config.includes)

def combinedExcludes (config : PhloConfig Config) : List String :=
  sortDedup (defaultExcludes ++ config.excludes)

def walkSqlFiles (included excluded : String → Bool) : List Path :=
  sortPaths (workspace.sqlWalk.filter fun path =>
    included (displayPath path) && !excluded (displayPath path))

/-! ## Roots -/

/-- The roots in the order of their directories, each with the strategy and the kind of the
first file in it. -/
def transformRoots (derived : List (DerivedFile Root)) : List TransformRoot :=
  let dirs := sortPaths (derived.map fun file => file.identity.rootDir).dedup
  dirs.zipIdx.filterMap fun (path, id) =>
    (derived.find? fun file => file.identity.rootDir == path).map fun file =>
      { id, path, strategy := file.identity.rootStrategy, kind := file.identity.kind }

def rootId (roots : List TransformRoot) (dir : Path) : Nat :=
  roots.findIdx fun root => root.path == dir

def fixedNamespace (root : TransformRoot) : Option Namespace :=
  match root.strategy with
  | .fixed ns => some ns
  | .firstSegment => none

def detectDuplicateNamespaces (roots : List TransformRoot) : List Diagnostic :=
  (sortDedup (roots.filterMap fixedNamespace)).filterMap fun ns =>
    let paths := (roots.filter fun root => fixedNamespace root == some ns).map TransformRoot.path
    if 1 < paths.length then
      some { Diagnostic.error projectDuplicateNamespace
          ("duplicate transform namespace `" ++ ns ++ "`") with
        labels := paths.map displayPath
        help := some "give each transform root a distinct namespace or remove the override" }
    else none

/-! ## Models, tests and seeds -/

def lowerModel (config : PhloConfig Config) (roots : List TransformRoot)
    (file : DerivedFile Root) : Except Diagnostic Model :=
  match workspace.readToString file.relativePath with
  | .error error =>
    .error ((Diagnostic.error projectFileRead
      ("could not read model: " ++ error)).withPath (displayPath file.relativePath))
  | .ok sql => frontend.model config (rootId roots file.identity.rootDir) file sql

def testName (relativePath : Path) : Option String :=
  let components := relativePath.dropLast ++ (relativePath.getLast?.map fileStem).toList
  let components := if components.head? = some "tests" then components.tail else components
  if components.isEmpty then none else some (".".intercalate components)

def loadTest (relativePath : Path) : Except Diagnostic SemanticTest :=
  match workspace.readToString relativePath with
  | .error error =>
    .error ((Diagnostic.error projectFileRead
      ("could not read test: " ++ error)).withPath (displayPath relativePath))
  | .ok sql =>
    match testName relativePath with
    | none =>
      .error ((Diagnostic.error projectUnresolvablePath
        "could not derive a test name from the path").withPath (displayPath relativePath))
    | some name => .ok { name, sql, path := relativePath }

/-- What was made, and what was reported. -/
def partitionResults {α β : Type} (results : List (Except α β)) : List β × List α :=
  (results.filterMap fun result => result.toOption,
    results.filterMap fun
      | .ok _ => none
      | .error error => some error)

/-- Discover custom SQL tests from the conventional `tests/**/*.sql` location. -/
def loadTests : List SemanticTest × List Diagnostic :=
  match buildGlobset frontend ["tests/**"] with
  | .error diagnostic => ([], [diagnostic])
  | .ok included =>
    match buildGlobset frontend defaultExcludes with
    | .error diagnostic => ([], [diagnostic])
    | .ok excluded =>
      let results := (walkSqlFiles workspace included excluded).map (loadTest workspace)
      let (tests, diagnostics) := partitionResults results
      (tests.mergeSort fun a b => decide (a.name ≤ b.name), diagnostics)

/-- Add a seed, unless one has its name. -/
def loadSeed (config : PhloConfig Config) (loaded : List SemanticSeed × List Diagnostic)
    (path : Path) : List SemanticSeed × List Diagnostic :=
  let (seeds, diagnostics) := loaded
  let stem := fileStem (path.getLast?.getD "")
  match workspace.bytes? path with
  | none =>
    (seeds, diagnostics ++ [(Diagnostic.error projectFileRead
      "could not read seed: No such file or directory (os error 2)").withPath
        (displayPath path)])
  | some bytes =>
    if seeds.any fun seed => seed.name == stem then
      (seeds, diagnostics ++ [(Diagnostic.error projectSeedNameCollision
        ("seed name `" ++ stem ++ "` is ambiguous across seeds/**")).withPath
          (displayPath path)])
    else
      (seeds ++ [{
        name := stem
        path
        schema := ((config.seed.lookup stem).bind id).or config.seedsSchema
        contentHash := frontend.digest bytes
        columns := frontend.seedColumns bytes }], diagnostics)

/-- Discover CSV seeds under the conventional `seeds/` directory. -/
def loadSeeds (config : PhloConfig Config) : List SemanticSeed × List Diagnostic :=
  (sortPaths workspace.csvWalk).foldl (loadSeed frontend workspace config) ([], [])

/-! ## Projects -/

def noRoots : Diagnostic :=
  { Diagnostic.warning projectNoRoots
      ("no transforms discovered under `" ++
        workspace.root.map (fun c => if c = '\\' then '/' else c) ++ "`") with
    help := some ("expected `transforms/**` or `workflows/*/transforms/**`, or a " ++
      "`[transform.discovery] include` glob in phlo.toml — pass `-r` if this is " ++
      "not the workspace you meant") }

/-- The files with their identities, or why they have none. -/
def derivedFiles (config : PhloConfig Config) (files : List Path) :
    List (Except Diagnostic (DerivedFile Root)) :=
  files.map fun relativePath =>
    (deriveIdentity frontend workspace relativePath config).map fun identity =>
      { relativePath, identity }

/-- The project of the files that the globs let through. -/
def lowerProject (config : PhloConfig Config) (included excluded : String → Bool) :
    SemanticProject Defaults Model :=
  let files := walkSqlFiles workspace included excluded
  let (derived, unresolved) := partitionResults (derivedFiles frontend workspace config files)
  let roots := transformRoots derived
  let (defaults, invalid) := frontend.defaults config
  let (models, unlowered) :=
    partitionResults (derived.map (lowerModel frontend workspace config roots))
  let (tests, untested) := loadTests frontend workspace
  let (seeds, unseeded) := loadSeeds frontend workspace config
  { workspaceRoot := workspace.root
    roots
    models := models.mergeSort fun a b => decide (frontend.modelId a ≤ frontend.modelId b)
    tests
    seeds
    defaults
    diagnostics := unresolved ++ detectDuplicateNamespaces roots ++ invalid ++ unlowered ++
      untested ++ unseeded ++ (if roots.isEmpty then [noRoots workspace] else []) }

def loadProject : Except Diagnostic (SemanticProject Defaults Model) := do
  let config ← readPhloConfig frontend workspace
  let included ← buildGlobset frontend (combinedIncludes config)
  let excluded ← buildGlobset frontend (combinedExcludes config)
  return lowerProject frontend workspace config included excluded

/-! ## What a project is read from -/

def isSettingsPath (path : Path) : Bool :=
  path == ["phlo.toml"] ||
    (path.getLast? == some "transform.toml" && !path.dropLast.any isIgnored)

/-- Two workspaces in which discovery reads the same. -/
structure Agree (a b : Workspace) : Prop where
  root : a.root = b.root
  sqlWalk : a.sqlWalk = b.sqlWalk
  csvWalk : a.csvWalk = b.csvWalk
  bytes : ∀ path, (isSqlPath path || isSettingsPath path || isSeedPath path) = true →
    a.bytes? path = b.bytes? path

variable {frontend} {a b : Workspace}

theorem isFile_congr (h : a.bytes? path = b.bytes? path) : a.isFile path = b.isFile path := by
  rw [Workspace.isFile, Workspace.isFile, h]

theorem readToString_congr (h : a.bytes? path = b.bytes? path) :
    a.readToString path = b.readToString path := by
  rw [Workspace.readToString, Workspace.readToString, h]

theorem readRootConfig_congr {dir : Path}
    (h : a.bytes? (transformToml dir) = b.bytes? (transformToml dir)) :
    readRootConfig frontend a dir = readRootConfig frontend b dir := by
  rw [readRootConfig, readRootConfig, isFile_congr h, readToString_congr h]

theorem isSettingsPath_transformToml {dir : Path} (hpath : isSqlPath path = true)
    (hdir : dir <+: path.dropLast) : isSettingsPath (transformToml dir) = true := by
  have hclean : path.dropLast.any isIgnored = false := by
    simpa using (Bool.and_eq_true_iff.1 hpath).2
  have hdirClean : dir.any isIgnored = false := by
    rw [List.any_eq_false] at hclean ⊢
    exact fun name hname => hclean name (hdir.subset hname)
  simp [isSettingsPath, transformToml, hdirClean]

namespace Agree

theorem transformToml (h : Agree a b) {path dir : Path} (hpath : isSqlPath path = true)
    (hdir : dir <+: path.dropLast) :
    a.bytes? (Discovery.transformToml dir) = b.bytes? (Discovery.transformToml dir) :=
  h.bytes _ (by simp [isSettingsPath_transformToml hpath hdir])

theorem text (h : Agree a b) {path : Path} (hpath : isSqlPath path = true) :
    a.readToString path = b.readToString path :=
  readToString_congr (h.bytes path (by simp [hpath]))

theorem readPhloConfig (h : Agree a b) :
    Discovery.readPhloConfig frontend a = Discovery.readPhloConfig frontend b := by
  have hbytes := h.bytes ["phlo.toml"] (by simp [isSettingsPath])
  rw [Discovery.readPhloConfig, Discovery.readPhloConfig, isFile_congr hbytes,
    readToString_congr hbytes]

theorem walkSqlFiles (h : Agree a b) (included excluded : String → Bool) :
    Discovery.walkSqlFiles a included excluded = Discovery.walkSqlFiles b included excluded := by
  rw [Discovery.walkSqlFiles, Discovery.walkSqlFiles, h.sqlWalk]

end Agree

theorem isSqlPath_of_mem_walkSqlFiles {included excluded : String → Bool}
    (h : path ∈ walkSqlFiles a included excluded) : isSqlPath path = true := by
  rw [walkSqlFiles, sortPaths, List.mem_mergeSort, List.mem_filter, Workspace.sqlWalk,
    List.mem_map] at h
  obtain ⟨⟨file, hfile, rfl⟩, -⟩ := h
  exact (Bool.and_eq_true_iff.1 (List.mem_filter.1 hfile).2).2

theorem isSeedPath_of_mem_csvWalk (h : path ∈ a.csvWalk) : isSeedPath path = true := by
  rw [Workspace.csvWalk, List.mem_map] at h
  obtain ⟨file, hfile, rfl⟩ := h
  exact (Bool.and_eq_true_iff.1 (List.mem_filter.1 hfile).2).2

theorem deriveFromConfiguredRoot_congr (h : Agree a b) (hpath : isSqlPath path = true)
    (stem : String) :
    deriveFromConfiguredRoot frontend a path path.dropLast stem =
      deriveFromConfiguredRoot frontend b path path.dropLast stem := by
  have hfile : ∀ index, a.isFile (transformToml (path.dropLast.take (index + 1))) =
      b.isFile (transformToml (path.dropLast.take (index + 1))) :=
    fun index => isFile_congr (h.transformToml hpath (List.take_prefix _ _))
  have hconfig : ∀ index, readRootConfig frontend a (path.dropLast.take (index + 1)) =
      readRootConfig frontend b (path.dropLast.take (index + 1)) :=
    fun index => readRootConfig_congr (h.transformToml hpath (List.take_prefix _ _))
  simp only [deriveFromConfiguredRoot, hfile, hconfig]

theorem deriveRaw_congr (h : Agree a b) (hpath : isSqlPath path = true) (config : PhloConfig Config)
    : deriveRaw frontend a path config = deriveRaw frontend b path config := by
  simp only [deriveRaw, deriveFromConfiguredRoot_congr h hpath]

theorem global_namespaceDir_prefix {below : List String}
    (h : deriveFromGlobalRoot path ("transforms" :: below) stem config = .ok derived) :
    derived.namespaceDir <+: "transforms" :: below := by
  cases below with
  | nil =>
    obtain ⟨ns, -, hns⟩ := except_bind_eq_ok.1 h
    cases hns
    exact List.prefix_rfl
  | cons second below =>
    obtain ⟨ns, -, hns⟩ := except_bind_eq_ok.1 h
    cases hns
    exact ⟨below, rfl⟩

theorem named_namespaceDir_prefix {index : Nat}
    (h : deriveFromNamedRoot path directories index stem = .ok derived) :
    derived.namespaceDir <+: directories := by
  obtain ⟨ns, -, hns⟩ := except_bind_eq_ok.1 h
  cases hns
  exact List.take_prefix _ _

theorem configured_namespaceDir_prefix
    (h : deriveFromConfiguredRoot frontend a path directories stem = .ok derived) :
    derived.namespaceDir <+: directories := by
  unfold deriveFromConfiguredRoot at h
  split at h
  · cases h
  · simp only at h
    split at h
    · cases h
    · obtain ⟨ns, -, hns⟩ := except_bind_eq_ok.1 h
      cases hns
      exact List.take_prefix _ _

theorem namespaceDir_prefix (h : deriveRaw frontend a path config = .ok derived) :
    derived.namespaceDir <+: path.dropLast := by
  unfold deriveRaw at h
  split at h
  · cases h
  · simp only at h
    split at h
    · rename_i hindex
      cases hdirs : path.dropLast with
      | nil => simp [hdirs] at hindex
      | cons dir below =>
        rw [hdirs, List.findIdx?_cons] at hindex
        have hdir : dir = "transforms" := by
          by_contra hne
          simp [hne] at hindex
        rw [hdirs, hdir] at h
        exact hdir ▸ global_namespaceDir_prefix h
    · exact named_namespaceDir_prefix h
    · exact configured_namespaceDir_prefix h

theorem deriveIdentity_congr (h : Agree a b) (hpath : isSqlPath path = true)
    (config : PhloConfig Config) :
    deriveIdentity frontend a path config = deriveIdentity frontend b path config := by
  unfold deriveIdentity
  rw [deriveRaw_congr h hpath]
  cases hderived : deriveRaw frontend b path config with
  | error diagnostic => rfl
  | ok derived =>
    have hdir := namespaceDir_prefix hderived
    simp only [bind, Except.bind, readRootConfig_congr (h.transformToml hpath hdir)]

theorem lowerModel_congr (h : Agree a b) (hfile : isSqlPath file.relativePath = true)
    (config : PhloConfig Config) (roots : List TransformRoot) :
    lowerModel frontend a config roots file = lowerModel frontend b config roots file := by
  rw [lowerModel, lowerModel, h.text hfile]

theorem loadTest_congr (h : Agree a b) (hpath : isSqlPath path = true) :
    loadTest a path = loadTest b path := by
  rw [loadTest, loadTest, h.text hpath]

theorem loadTests_congr (h : Agree a b) : loadTests frontend a = loadTests frontend b := by
  have hmap : ∀ included excluded : String → Bool,
      (walkSqlFiles b included excluded).map (loadTest a) =
        (walkSqlFiles b included excluded).map (loadTest b) :=
    fun included excluded => List.map_congr_left fun path hpath =>
      loadTest_congr h (isSqlPath_of_mem_walkSqlFiles hpath)
  simp only [loadTests, h.walkSqlFiles, hmap]

theorem loadSeeds_congr (h : Agree a b) (config : PhloConfig Config) :
    loadSeeds frontend a config = loadSeeds frontend b config := by
  unfold loadSeeds
  rw [h.csvWalk]
  refine List.foldl_ext _ _ _ fun loaded path hpath => ?_
  have hseed : isSeedPath path = true :=
    isSeedPath_of_mem_csvWalk (List.mem_mergeSort.1 hpath)
  simp only [loadSeed, h.bytes path (by simp [hseed])]

theorem mem_of_mem_partitionResults {α β : Type} {results : List (Except α β)} {value : β}
    (h : value ∈ (partitionResults results).1) : .ok value ∈ results := by
  obtain ⟨result, hmem, hvalue⟩ := List.mem_filterMap.1 h
  cases result with
  | error => cases hvalue
  | ok other =>
    cases hvalue
    exact hmem

theorem derivedFiles_congr (h : Agree a b) (config : PhloConfig Config)
    (hfiles : ∀ path ∈ files, isSqlPath path = true) :
    derivedFiles frontend a config files = derivedFiles frontend b config files :=
  List.map_congr_left fun path hpath => by
    rw [deriveIdentity_congr h (hfiles path hpath)]

theorem isSqlPath_of_mem_derivedFiles (hfiles : ∀ path ∈ files, isSqlPath path = true)
    (h : file ∈ (partitionResults (derivedFiles frontend a config files)).1) :
    isSqlPath file.relativePath = true := by
  obtain ⟨path, hpath, hfile⟩ := List.mem_map.1 (mem_of_mem_partitionResults h)
  obtain ⟨identity, -, rfl⟩ := except_map_eq_ok.1 hfile
  exact hfiles path hpath

theorem lowerProject_congr (h : Agree a b) (config : PhloConfig Config)
    (included excluded : String → Bool) :
    lowerProject frontend a config included excluded =
      lowerProject frontend b config included excluded := by
  have hfiles : ∀ path ∈ walkSqlFiles b included excluded, isSqlPath path = true :=
    fun path hpath => isSqlPath_of_mem_walkSqlFiles hpath
  have hmodels : ∀ roots,
      (partitionResults (derivedFiles frontend b config
        (walkSqlFiles b included excluded))).1.map (lowerModel frontend a config roots) =
      (partitionResults (derivedFiles frontend b config
        (walkSqlFiles b included excluded))).1.map (lowerModel frontend b config roots) :=
    fun roots => List.map_congr_left fun file hfile =>
      lowerModel_congr h (isSqlPath_of_mem_derivedFiles hfiles hfile) config roots
  simp only [lowerProject, h.walkSqlFiles, derivedFiles_congr h config hfiles, hmodels,
    loadTests_congr h, loadSeeds_congr h, h.root, noRoots]

/-- A project is read from SQL and TOML files that are not below an ignored directory, and from
seeds. -/
theorem loadProject_congr (h : Agree a b) : loadProject frontend a = loadProject frontend b := by
  simp only [loadProject, h.readPhloConfig, lowerProject_congr h]

end

end PhloTransform.Core.Discovery
