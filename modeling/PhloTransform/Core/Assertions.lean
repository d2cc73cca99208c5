import PhloTransform.Core.LineageDiff
import PhloTransform.Core.Schema
import PhloTransform.Core.SourceVersions

/-!
# Assertions and the contract hash

The analysis goes through the models dependencies first.  For each model it derives the
assertions from the directives, versions the compiled model as it stands, and only then
attaches the assertions to it.  The text behind the contract hash ends with the
assertions of the compiled model, which at that moment has none.

Main results:

- Theorem `LoweredWorkspace.versions_eq`: the versions are those of models without assertions.
- Theorem `LoweredWorkspace.assertions_eq`: in the end every model has its assertions.
-/

namespace PhloTransform.Core

/-! ## Directives and assertions -/

/-- A header line that declares columns. -/
inductive DirectiveLine where
  | key (columns : List String)
  | notNull (columns : List String)
  | incremental (strategy : IncrementalStrategy)
deriving DecidableEq

/-- The directives that assertions derive from. -/
structure Directives where
  keys : List String
  notNull : List String
deriving DecidableEq

def sortColumns (columns : List String) : List String :=
  (columns.insertionSort (· ≤ ·)).destutter (· ≠ ·)

def Directives.line (directives : Directives) : DirectiveLine → Directives
  | .key columns => { directives with keys := directives.keys ++ columns }
  | .notNull columns => { directives with notNull := directives.notNull ++ columns }
  -- a key declaration also implies identity semantics
  | .incremental (.key columns) =>
    { directives with keys := sortColumns (directives.keys ++ columns) }
  | .incremental _ => directives

def parseDirectives (lines : List DirectiveLine) : Directives :=
  let directives := lines.foldl Directives.line { keys := [], notNull := [] }
  { keys := sortColumns directives.keys, notNull := sortColumns directives.notNull }

inductive Assertion where
  | notNull (column : String)
  | unique (columns : List String)
deriving DecidableEq

def Assertion.describe : Assertion → String
  | notNull column => "not_null " ++ column
  | unique columns => "unique " ++ String.intercalate ", " columns

/-- Derive logical assertions from model directives. -/
def assertionsFor (directives : Directives) : List Assertion :=
  let keyed := directives.keys.map Assertion.notNull ++
    -- one composite key: the tuple is unique, not each column alone
    if directives.keys.isEmpty then [] else [.unique directives.keys]
  directives.notNull.foldl
    (fun assertions column =>
      if .notNull column ∈ assertions then assertions else assertions ++ [.notNull column])
    keyed

/-! ## The contract's text -/

mutual

def DataType.debug : DataType → String
  | .boolean => "Boolean"
  | .tinyInt => "TinyInt"
  | .smallInt => "SmallInt"
  | .integer => "Integer"
  | .bigInt => "BigInt"
  | .real => "Real"
  | .double => "Double"
  | .decimal => "Decimal"
  | .varchar => "Varchar"
  | .varbinary => "Varbinary"
  | .date => "Date"
  | .time => "Time"
  | .timestamp => "Timestamp"
  | .timestampTz => "TimestampTz"
  | .array inner => "Array(" ++ inner.debug ++ ")"
  | .map key value => "Map(" ++ key.debug ++ ", " ++ value.debug ++ ")"
  | .row fields => "Row([" ++ fields.debug ++ "])"
  | .unknown => "Unknown"

def FieldTypes.debug : FieldTypes → String
  | .nil => ""
  | .cons first .nil => first.debug
  | .cons first rest => first.debug ++ ", " ++ rest.debug

end

/-- An explicit column-level contract. -/
structure ColumnContract where
  name : String
  dataType : Option DataType
  nullable : Option Bool
deriving DecidableEq

/-- An explicit model contract. -/
structure ModelContract where
  enforced : Bool
  columns : List ColumnContract
  /-- The declared renames, new name first, in the order of the new names. -/
  renames : List (String × String)
deriving DecidableEq

def ColumnContract.text (column : ColumnContract) : String :=
  column.name ++ ":" ++ debugOption DataType.debug column.dataType ++ ":" ++
    debugOption toString column.nullable

def ModelContract.text (contract : ModelContract) : String :=
  "enforced=" ++ toString contract.enforced ++ ";columns=" ++
    String.intercalate "," (contract.columns.map ColumnContract.text) ++ ";renames=" ++
    String.intercalate "," (contract.renames.map equation)

/-- The contract as it enters the version of a model. -/
def contractInput (contract : Option ModelContract) (assertions : List Assertion) : String :=
  (contract.map ModelContract.text).getD "" ++ ";assertions=" ++
    String.intercalate "," (assertions.map Assertion.describe)

/-! ## The analysis -/

/-- What the front end knows of a model beside the compiled one. -/
structure AnalysisInput where
  /-- The statements of the model as they serialise, without comments. -/
  canonicalSql : String
  incremental : String
  directives : List DirectiveLine
  contract : Option ModelContract

/-- The texts that enter the version of a compiled model with these assertions. -/
def AnalysisInput.lowered (model : AnalysisInput) (assertions : List Assertion) :
    LoweredModel where
  canonicalSql := model.canonicalSql
  incremental := model.incremental
  contract := contractInput model.contract assertions

/-- A workspace whose models are compiled and not analysed. -/
structure LoweredWorkspace where
  compilation : Compilation
  semantic : ModelId → AnalysisInput

/-- What the analysis has filled in so far. -/
structure AnalysisState where
  assertions : ModelId → List Assertion
  versions : ModelId → Option ModelVersion

namespace LoweredWorkspace

variable [Sha256] (workspace : LoweredWorkspace) (sourceState : SourceId → Option String)
variable {order : List ModelId}
variable {model : CompiledModel}

/-- One turn of the analysis loop: version the compiled model, then complete it. -/
def analyseModel (analysis : AnalysisState) (id : ModelId) : AnalysisState :=
  match workspace.compilation.model id with
  | none => analysis
  | some model =>
    let semantic := workspace.semantic id
    let assertions := assertionsFor (parseDirectives semantic.directives)
    let inputs := versionInputs (semantic.lowered (analysis.assertions id)) model sourceState
      analysis.versions
    { assertions := Function.update analysis.assertions id assertions
      versions := Function.update analysis.versions id (some (modelVersion inputs)) }

/-- The analysis in dependency order; a cyclic graph is not analysed. -/
def analyse : AnalysisState :=
  (workspace.compilation.topologicalOrder.getD []).foldl (workspace.analyseModel sourceState)
    { assertions := fun _ => [], versions := fun _ => none }

/-- The texts of the models, none of them with assertions. -/
def unasserted (id : ModelId) : LoweredModel :=
  (workspace.semantic id).lowered []

variable {workspace sourceState} {analysis : AnalysisState} {id other : ModelId}

theorem assertions_analyseModel :
    (workspace.analyseModel sourceState analysis id).assertions other =
      if other = id ∧ (workspace.compilation.model id).isSome then
        assertionsFor (parseDirectives (workspace.semantic id).directives)
      else analysis.assertions other := by
  unfold analyseModel
  cases workspace.compilation.model id with
  | none => simp
  | some model => simp [Function.update_apply]

theorem versions_analyseModel (h : analysis.assertions id = []) :
    (workspace.analyseModel sourceState analysis id).versions =
      workspace.compilation.versionStep workspace.unasserted sourceState analysis.versions id := by
  unfold analyseModel Compilation.versionStep unasserted
  rw [h]
  cases workspace.compilation.model id <;> rfl

/-- Models that come up once have no assertions when they do. -/
theorem versions_foldl (hnodup : order.Nodup) (h : ∀ id ∈ order, analysis.assertions id = []) :
    (order.foldl (workspace.analyseModel sourceState) analysis).versions =
      order.foldl (workspace.compilation.versionStep workspace.unasserted sourceState)
        analysis.versions := by
  induction order generalizing analysis with
  | nil => rfl
  | cons first order ih =>
    obtain ⟨hfirst, hrest⟩ := List.nodup_cons.1 hnodup
    rw [List.foldl_cons, List.foldl_cons, ih hrest, versions_analyseModel (h first (by simp))]
    intro id hid
    have hne : id ≠ first := fun heq => hfirst (heq ▸ hid)
    rw [assertions_analyseModel, if_neg fun hboth => hne hboth.1]
    exact h id (List.mem_cons_of_mem _ hid)

/-- The versions are those of the models without any assertions. -/
theorem versions_eq :
    (workspace.analyse sourceState).versions =
      workspace.compilation.modelVersions workspace.unasserted sourceState := by
  unfold analyse Compilation.modelVersions
  cases horder : workspace.compilation.topologicalOrder with
  | none => rfl
  | some order =>
    exact versions_foldl (Library.DependencyGraph.topologicalOrder_nodup horder) fun _ _ => rfl

theorem assertions_foldl :
    (order.foldl (workspace.analyseModel sourceState) analysis).assertions id =
      if id ∈ order ∧ (workspace.compilation.model id).isSome then
        assertionsFor (parseDirectives (workspace.semantic id).directives)
      else analysis.assertions id := by
  induction order generalizing analysis with
  | nil => simp
  | cons first order ih =>
    rw [List.foldl_cons, ih, assertions_analyseModel]
    by_cases hfirst : id = first
    · subst hfirst
      cases (workspace.compilation.model id).isSome <;> simp
    · simp [hfirst]

/-- In the end every model of an acyclic workspace has its assertions. -/
theorem assertions_eq (horder : workspace.compilation.topologicalOrder = some order)
    (hmodel : model ∈ workspace.compilation.models) :
    (workspace.analyse sourceState).assertions model.id =
      assertionsFor (parseDirectives (workspace.semantic model.id).directives) := by
  have hmem : model.id ∈ order :=
    Library.DependencyGraph.mem_topologicalOrder horder (List.mem_map_of_mem hmodel)
  unfold analyse
  rw [horder, Option.getD_some, assertions_foldl, if_pos]
  exact ⟨hmem, by rw [workspace.compilation.model_of_mem hmodel]; rfl⟩

/-! ## What the contract hash tells -/

/-- The version of a model after the analysis. -/
def version (workspace : LoweredWorkspace) (sourceState : SourceId → Option String)
    (id : ModelId) : Option ModelVersion :=
  (workspace.analyse sourceState).versions id

/-- The contract of the model and the models that are analysed are the same; directives,
configuration and all else may differ. -/
structure SameContract (workspace workspace' : LoweredWorkspace) (id : ModelId) : Prop where
  contract : (workspace.semantic id).contract = (workspace'.semantic id).contract
  order : workspace.compilation.topologicalOrder = workspace'.compilation.topologicalOrder
  models : (workspace.compilation.model id).isSome = (workspace'.compilation.model id).isSome

/-- The contract hash of the model, and with it the version, tells its assertions. -/
structure AssertionsCovered (workspace workspace' : LoweredWorkspace)
    (sourceState : SourceId → Option String) (id : ModelId) : Prop where
  told : (workspace.analyse sourceState).assertions id ≠
      (workspace'.analyse sourceState).assertions id →
    (workspace.version sourceState id).map (·.contractHash) ≠
        (workspace'.version sourceState id).map (·.contractHash) ∧
      (workspace.version sourceState id).map (·.hash) ≠
        (workspace'.version sourceState id).map (·.hash)
  same : (workspace.analyse sourceState).assertions id =
      (workspace'.analyse sourceState).assertions id →
    (workspace.version sourceState id).map (·.contractHash) =
      (workspace'.version sourceState id).map (·.contractHash)

variable {workspace' : LoweredWorkspace}

/-- Every contract hash is that of the contract without assertions. -/
theorem contractHash_eq (horder : workspace.compilation.topologicalOrder = some order)
    (hmodel : workspace.compilation.model id = some model) :
    (workspace.version sourceState id).map (·.contractHash) =
      some (Sha256.hex (contractInput (workspace.semantic id).contract [])) := by
  have hmem := Compilation.mem_of_model hmodel
  obtain rfl := Compilation.id_of_model hmodel
  rw [version, versions_eq, Compilation.modelVersions_eq horder hmem]
  rfl

theorem version_eq_none (h : workspace.compilation.topologicalOrder = none ∨
    workspace.compilation.model id = none) : workspace.version sourceState id = none := by
  rw [version, versions_eq, Compilation.modelVersions]
  rcases h with horder | hmodel
  · rw [horder]
    rfl
  · generalize workspace.compilation.topologicalOrder.getD [] = order
    have hkeep : ∀ versions : ModelId → Option ModelVersion, versions id = none →
        order.foldl (workspace.compilation.versionStep workspace.unasserted sourceState)
          versions id = none := by
      induction order with
      | nil => exact fun _ h => h
      | cons first order ih =>
        intro versions hversions
        rw [List.foldl_cons]
        apply ih
        by_cases hid : id = first
        · subst hid
          rwa [Compilation.versionStep, hmodel]
        · rwa [Compilation.versionStep_of_ne hid]
    exact hkeep _ rfl

/-- Equal contracts have equal contract hashes, whatever the assertions are. -/
theorem contractHash_congr (h : SameContract workspace workspace' id) :
    (workspace.version sourceState id).map (·.contractHash) =
      (workspace'.version sourceState id).map (·.contractHash) := by
  have hmodels := h.models
  cases horder : workspace.compilation.topologicalOrder with
  | none =>
    rw [version_eq_none (.inl horder), version_eq_none (.inl (h.order ▸ horder))]
  | some order =>
    have horder' : workspace'.compilation.topologicalOrder = some order := h.order ▸ horder
    cases hmodel : workspace.compilation.model id with
    | none =>
      rw [hmodel, Option.isSome_none] at hmodels
      have hmodel' : workspace'.compilation.model id = none :=
        Option.isSome_eq_false_iff.1 hmodels.symm |> Option.isNone_iff_eq_none.1
      rw [version_eq_none (.inr hmodel), version_eq_none (.inr hmodel')]
    | some model =>
      rw [hmodel, Option.isSome_some] at hmodels
      obtain ⟨model', hmodel'⟩ := Option.isSome_iff_exists.1 hmodels.symm
      rw [contractHash_eq horder hmodel, contractHash_eq horder' hmodel', h.contract]

/-- The contract hash covers the assertions only where there is nothing to tell apart. -/
theorem assertionsCovered_iff (h : SameContract workspace workspace' id) :
    AssertionsCovered workspace workspace' sourceState id ↔
      (workspace.analyse sourceState).assertions id =
        (workspace'.analyse sourceState).assertions id := by
  constructor
  · intro hcovered
    by_contra hdiffer
    exact (hcovered.told hdiffer).1 (contractHash_congr h)
  · exact fun hsame => ⟨fun hdiffer => absurd hsame hdiffer, fun _ => contractHash_congr h⟩

theorem versions_eq_of_directives
    (hcompilation : workspace.compilation = workspace'.compilation)
    (hsemantic : ∀ id, { workspace.semantic id with directives := [] } =
      { workspace'.semantic id with directives := [] }) :
    (workspace.analyse sourceState).versions = (workspace'.analyse sourceState).versions := by
  have hlowered : workspace.unasserted = workspace'.unasserted := by
    funext id
    have hsame := hsemantic id
    simp only [AnalysisInput.mk.injEq] at hsame
    obtain ⟨hsql, hincremental, -, hcontract⟩ := hsame
    simp only [unasserted, AnalysisInput.lowered, hsql, hincremental, hcontract]
  rw [versions_eq, versions_eq, hcompilation, hlowered]

end LoweredWorkspace

/-! ## A workspace with and without a key -/

namespace Sample

def keyed (directives : List DirectiveLine) : LoweredWorkspace where
  compilation := chain
  semantic id :=
    { canonicalSql := "SELECT 1 AS id"
      incremental := "None"
      directives := if id = rawModel.id then directives else []
      contract := none }

theorem assertions_keyed [Sha256] (sourceState : SourceId → Option String)
    (directives : List DirectiveLine) :
    ((keyed directives).analyse sourceState).assertions rawModel.id =
      assertionsFor (parseDirectives directives) := by
  have horder : (keyed directives).compilation.topologicalOrder =
      some [rawModel.id, martModel.id] := by
    change chain.topologicalOrder = _
    decide +kernel
  have hmodel : rawModel ∈ (keyed directives).compilation.models := by
    simp [keyed, chain]
  rw [LoweredWorkspace.assertions_eq horder hmodel]
  simp [keyed]

theorem sameContract_keyed (directives directives' : List DirectiveLine) :
    LoweredWorkspace.SameContract (keyed directives) (keyed directives') rawModel.id :=
  ⟨rfl, rfl, rfl⟩

/-- A column that is a key is not null anyway. -/
theorem assertionsCovered_keyed :
    @LoweredWorkspace.AssertionsCovered quotedDigest (keyed [.key ["id"]])
      (keyed [.key ["id"], .notNull ["id"]]) (fun _ => none) rawModel.id := by
  rw [@LoweredWorkspace.assertionsCovered_iff quotedDigest _ _ _ _ (sameContract_keyed _ _),
    @assertions_keyed quotedDigest, @assertions_keyed quotedDigest]
  decide +kernel

/-- A key gives the model assertions and leaves its version as it is. -/
theorem version_keyed :
    @CollisionFree quotedDigest ∧
      (@LoweredWorkspace.analyse quotedDigest (keyed [.key ["id"]]) (fun _ => none)).assertions
          rawModel.id ≠
        (@LoweredWorkspace.analyse quotedDigest (keyed []) (fun _ => none)).assertions
          rawModel.id ∧
      @LoweredWorkspace.version quotedDigest (keyed [.key ["id"]]) (fun _ => none) rawModel.id =
        @LoweredWorkspace.version quotedDigest (keyed []) (fun _ => none) rawModel.id := by
  refine ⟨collisionFree_quotedDigest, ?_, ?_⟩
  · rw [@assertions_keyed quotedDigest, @assertions_keyed quotedDigest]
    decide +kernel
  · have hversions := @LoweredWorkspace.versions_eq_of_directives quotedDigest (keyed [.key ["id"]])
      (fun _ => none) (keyed []) rfl fun _ => rfl
    exact congrFun hversions rawModel.id

end Sample

end PhloTransform.Core
