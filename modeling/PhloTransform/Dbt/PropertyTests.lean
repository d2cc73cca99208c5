import PhloTransform.Dbt.EmittedNames
import PhloTransform.Dbt.GenericTests
import PhloTransform.Dbt.PyLit

/-!
# Tests declared in property files

A test of a property file is a name, or a mapping of one name to arguments.  It becomes a file
under `tests/generated`, a `@not-null` directive, nothing, or an issue.  The file is named by the
tested relation, the column and the kind of the test, with two underscores between them.

Main results:

- Theorem `GeneratedTest.relPath_eq_iff`: the tests that have one file.
-/

namespace PhloTransform.Dbt

open Library

/-! ## Values of a YAML file -/

/-- A value of a YAML file; a number is an `i64`, or else the text of a float. -/
inductive Yaml where
  | null
  | bool (value : Bool)
  | int (value : Int)
  | float (text : String)
  | string (value : String)
  | sequence (items : List Yaml)
  | mapping (entries : List (Yaml × Yaml))
  | tagged (tag : String) (value : Yaml)

namespace Yaml

abbrev Mapping := List (Yaml × Yaml)

def untag : Yaml → Yaml
  | tagged _ value => value.untag
  | value => value

def asStr (value : Yaml) : Option String :=
  match value.untag with
  | string text => some text
  | _ => none

def asBool (value : Yaml) : Option Bool :=
  match value.untag with
  | bool b => some b
  | _ => none

def asSequence (value : Yaml) : Option (List Yaml) :=
  match value.untag with
  | sequence items => some items
  | _ => none

def asMapping (value : Yaml) : Option Mapping :=
  match value.untag with
  | mapping entries => some entries
  | _ => none

/-- The value of a key that is a string. -/
def lookup (key : String) (entries : Mapping) : Option Yaml :=
  (entries.find? fun entry =>
    match entry.1 with
    | string name => name == key
    | _ => false).map Prod.snd

def get (key : String) (value : Yaml) : Option Yaml :=
  value.asMapping.bind (lookup key)

/-- `yaml_key`; the debug text of a value that is no string is a parameter. -/
def key (debug : Yaml → String) : Yaml → String
  | string name => name
  | other => debug other

mutual

/-- `yaml_to_lit`. -/
def toLit (debug : Yaml → String) : Yaml → Lit
  | null => .nothing
  | bool value => .bool value
  | int value => .int value
  | float text => .float text
  | string value => .str value
  | sequence items => .list (toLits debug items)
  | mapping entries => .dict (toEntries debug entries)
  | tagged _ value => value.toLit debug

def toLits (debug : Yaml → String) : List Yaml → List Lit
  | [] => []
  | item :: items => item.toLit debug :: toLits debug items

def toEntries (debug : Yaml → String) : List (Yaml × Yaml) → List (String × Lit)
  | [] => []
  | (name, value) :: entries =>
    (name.key debug, value.toLit debug) :: toEntries debug entries

end

end Yaml

/-! ## Calls in arguments -/

/-- A `name(arguments)` call. -/
structure Call where
  name : String
  positional : List Lit
  keywords : List (String × Lit)

/-- The positional string argument at an index. -/
def Call.arg (call : Call) (index : Nat) : Option String :=
  call.positional[index]?.bind Lit.asStr

/-- `jinja::parse_call`. -/
def parseCall (inner : List Char) : Option Call :=
  let inner := Core.trim inner
  let name := Core.trim (inner.takeWhile (· != '('))
  match inner.dropWhile (· != '(') with
  | [] => none
  | _ :: rest =>
    if name.isEmpty || !name.all fun c => c.isAlphanum || c == '_' || c == '.' then none
    else if rest.getLast? ≠ some ')' then none
    else
      match PyLit.parseArgs (String.ofList rest.dropLast) with
      | .ok (positional, keywords) => some ⟨String.ofList name, positional, keywords⟩
      | .error _ => none

/-- `trim_start_matches("\x7b\x7b")`. -/
def stripOpening : List Char → List Char
  | '\x7b' :: '\x7b' :: rest => stripOpening rest
  | text => text

/-- `trim_end_matches("\x7d\x7d")` on the reversed text. -/
def stripClosing : List Char → List Char
  | '\x7d' :: '\x7d' :: rest => stripClosing rest
  | text => text

/-- What the tests of a project are translated against. -/
structure TestContext where
  modelTargets : String → Option String
  seedTargets : String → Option String
  sources : String × String → Option String
  hasPackage : String → Bool
  debug : Yaml → String

/-- `resolve_test_target`: a `ref` or `source` call in the arguments of a test. -/
def TestContext.resolveTestTarget (ctx : TestContext) (spec : String) : Option String := do
  let opened := stripOpening (Core.trim spec.toList)
  let call ← parseCall (stripClosing opened.reverse).reverse
  match call.name with
  | "ref" =>
    let name ← call.arg 0
    ctx.modelTargets name <|> ctx.seedTargets name
  | "source" =>
    let source ← call.arg 0
    let table ← call.arg 1
    ctx.sources (source, table)
  | _ => none

/-! ## Generic tests -/

/-- The kinds in the names of test files. -/
inductive GeneratedKind where
  | unique
  | notNull
  | acceptedValues
  | relationships
  | expressionIsTrue
  | acceptedRange
  | notConstant
  | notEmptyString
  | uniqueCombination
  | equality
  | equalRowcount
deriving Repr, DecidableEq

def GeneratedKind.text : GeneratedKind → String
  | unique => "unique"
  | notNull => "not_null"
  | acceptedValues => "accepted_values"
  | relationships => "relationships"
  | expressionIsTrue => "expression_is_true"
  | acceptedRange => "accepted_range"
  | notConstant => "not_constant"
  | notEmptyString => "not_empty_string"
  | uniqueCombination => "unique_combination"
  | equality => "equality"
  | equalRowcount => "equal_rowcount"

/-- A test file under `tests/generated`. -/
structure GeneratedTest where
  subject : String
  column : String
  kind : GeneratedKind
deriving Repr, DecidableEq

/-- What the name of a test file has in front of the kind. -/
def GeneratedTest.label (test : GeneratedTest) : String :=
  test.subject ++ "__" ++ test.column

def GeneratedTest.relPath (test : GeneratedTest) : String :=
  "tests/generated/" ++ test.label ++ "__" ++ test.kind.text ++ ".sql"

/-- `replace('.', "__")`. -/
def replaceDots (text : String) : String :=
  String.ofList (text.toList.flatMap fun c => if c = '.' then ['_', '_'] else [c])

def MigrationIssue.unsupportedTest (message : String) : MigrationIssue where
  code := "DBT014"
  message := message

/-- What a generic test becomes. -/
inductive TestOutcome where
  | file (kind : GeneratedKind)
  | notNull (column : String)
  | folded
  | issue (message : String)
deriving Repr, DecidableEq

/-- `merged_test_args`, for lookups: entries of `arguments` come before the others. -/
def mergedTestArgs (args : Yaml.Mapping) : Yaml.Mapping :=
  (((Yaml.lookup "arguments" args).bind Yaml.asMapping).getD []) ++ args

/-- Package-qualified test names resolve to the bare name when the package is declared. -/
def TestContext.bareName (ctx : TestContext) (name : String) : String :=
  let bare := (name.toList.reverse.takeWhile (· != '.')).reverse
  match (name.toList.reverse.dropWhile (· != '.')).reverse with
  | [] => name
  | qualifier =>
    if ctx.hasPackage (String.ofList qualifier.dropLast) then String.ofList bare else name

/-- The name and the arguments of a test. -/
def TestContext.nameAndArgs (ctx : TestContext) : Yaml → Option (String × Yaml.Mapping)
  | .string name => some (name, [])
  | .mapping [(key, value)] => some (key.key ctx.debug, value.asMapping.getD [])
  | _ => none

section

variable (ctx : TestContext) (args : Yaml.Mapping)

def TestContext.literal (name : String) : Option String :=
  (Yaml.lookup name args).bind fun value => (value.toLit ctx.debug).toSqlLiteral

def stringArg (name : String) : Option String :=
  (Yaml.lookup name args).bind Yaml.asStr

/-- An argument that is a list; nothing inside when an item is no string. -/
def stringsArg (name : String) : Option (Option (List String)) :=
  ((Yaml.lookup name args).bind Yaml.asSequence).map fun items => items.mapM Yaml.asStr

/-- The relation that a test compares with. -/
def TestContext.otherRelation : Option String :=
  ((Yaml.lookup "compare_model" args <|> Yaml.lookup "model" args).bind Yaml.asStr).bind
    ctx.resolveTestTarget

/-- The dispatch of `translate_generic_test` on the name of the test. -/
def TestContext.dispatch (name : String) (column : Option String) (keyColumns : List String) :
    TestOutcome :=
  match name, column with
  | "unique", none => .issue "model-level `unique` test is ambiguous"
  | "unique", some column => if column ∈ keyColumns then .folded else .file .unique
  | "not_null", none => .issue "model-level `not_null` test is ambiguous"
  | "not_null", some column => if column ∈ keyColumns then .folded else .notNull column
  | "accepted_values", column =>
    if column.isSome && ((Yaml.lookup "values" args).bind Yaml.asSequence).isSome then
      .file .acceptedValues
    else .issue "`accepted_values` test lacks a column or values"
  | "relationships", none => .issue "model-level `relationships` test is ambiguous"
  | "relationships", some _ =>
    if ((stringArg args "to").bind ctx.resolveTestTarget).isSome then .file .relationships
    else .issue "`relationships` test target could not be resolved"
  | "expression_is_true", _ =>
    if (stringArg args "expression").isSome then .file .expressionIsTrue
    else .issue "`expression_is_true` test lacks `expression`"
  | "accepted_range", column =>
    if column.isSome &&
        ((ctx.literal args "min_value").isSome || (ctx.literal args "max_value").isSome) then
      .file .acceptedRange
    else .issue "`accepted_range` test lacks a column or bounds"
  | "not_constant", none => .issue "`not_constant` test lacks a column"
  | "not_constant", some _ =>
    match stringsArg args "group_by_columns" with
    | some none => .issue "`not_constant` group_by_columns must be a static string list"
    | _ => .file .notConstant
  | "not_empty_string", none => .issue "`not_empty_string` test lacks a column"
  | "not_empty_string", some _ => .file .notEmptyString
  | "unique_combination_of_columns", _ =>
    match (Yaml.lookup "combination_of_columns" args).bind Yaml.asSequence with
    | some items =>
      if (items.filterMap Yaml.asStr).isEmpty then
        .issue "`unique_combination_of_columns` lacks `combination_of_columns`"
      else .file .uniqueCombination
    | none => .issue "`unique_combination_of_columns` lacks `combination_of_columns`"
  | "equality", _ =>
    let unsupported := ["summarize", "precision", "exclude_columns"].any fun key =>
      (Yaml.lookup key args).isSome
    match unsupported, ctx.otherRelation args, stringsArg args "compare_columns" with
    | false, some _, some (some _) => .file .equality
    | false, some _, none => .file .equality
    | false, _, some none => .issue "`equality` compare_columns must be a static string list"
    | true, _, _ =>
      .issue "`equality` with summarize/precision/exclude_columns has no native conversion"
    | _, none, _ => .issue "`equality` compare_model could not be resolved"
  | "equal_rowcount", _ =>
    if (ctx.otherRelation args).isSome then .file .equalRowcount
    else .issue "`equal_rowcount` compare_model could not be resolved"
  | other, _ => .issue ("generic test `" ++ other ++ "` has no native conversion")

end

/-- `translate_generic_test`. -/
def TestContext.translateGenericTest (ctx : TestContext) (test : Yaml) (column : Option String)
    (keyColumns : List String) : TestOutcome :=
  match ctx.nameAndArgs test with
  | none => .issue "unrecognised test definition"
  | some (name, args) => ctx.dispatch (mergedTestArgs args) (ctx.bareName name) column keyColumns

/-- The files, the issues and the `@not-null` columns that tests become. -/
structure TestOutput where
  tests : List GeneratedTest
  issues : List MigrationIssue
  notNull : List String

def TestOutput.none : TestOutput := ⟨[], [], []⟩

def TestOutput.append (a b : TestOutput) : TestOutput :=
  ⟨a.tests ++ b.tests, a.issues ++ b.issues, a.notNull ++ b.notNull⟩

/-- What the items of a list add, one after the other. -/
def TestOutput.gather {α : Type*} (items : List α) (output : α → TestOutput) : TestOutput :=
  items.foldl (fun sofar item => sofar.append (output item)) .none

def TestOutcome.output (logical : String) (column : Option String) : TestOutcome → TestOutput
  | file kind => ⟨[⟨replaceDots logical, column.getD "model", kind⟩], [], []⟩
  | notNull column => ⟨[], [], [column]⟩
  | folded => .none
  | issue message => ⟨[], [.unsupportedTest message], []⟩

/-- `tests` or `data_tests`. -/
def declaredTests (entry : Yaml) : List Yaml :=
  ((entry.get "tests" <|> entry.get "data_tests").bind Yaml.asSequence).getD []

/-- The named columns of an entry with their tests. -/
def columnTests (entry : Yaml) : List (String × Yaml) :=
  (((entry.get "columns").bind Yaml.asSequence).getD []).flatMap fun column =>
    match (column.get "name").bind Yaml.asStr with
    | some name => (declaredTests column).map fun test => (name, test)
    | none => []

/-- `emit_property_tests`: the tests of the columns, and then those of the relation. -/
def TestContext.emitPropertyTests (ctx : TestContext) (entry : Yaml) (logical : String)
    (keyColumns : List String) : TestOutput :=
  let ofColumns := TestOutput.gather (columnTests entry) fun declared =>
    (ctx.translateGenericTest declared.2 (some declared.1) keyColumns).output logical
      (some declared.1)
  ofColumns.append <| TestOutput.gather (declaredTests entry) fun test =>
    (ctx.translateGenericTest test none keyColumns).output logical none

/-! ## Tests of sources -/

/-- What a test of a source column becomes; a malformed one is skipped. -/
def TestContext.sourceTest (ctx : TestContext) (test : Yaml) : Option TestOutcome :=
  match ctx.nameAndArgs test with
  | none => none
  | some ("unique", _) => some (.file .unique)
  | some ("not_null", _) => some (.file .notNull)
  | some ("accepted_values", args) => some <|
      if ((Yaml.lookup "values" (mergedTestArgs args)).bind Yaml.asSequence).isSome then
        .file .acceptedValues
      else .issue "`accepted_values` source test lacks `values`"
  | some (other, _) =>
    some (.issue ("source column test `" ++ other ++ "` has no native conversion"))

/-- `emit_source_tests`. -/
def TestContext.emitSourceTests (ctx : TestContext) (source table : String) (entry : Yaml) :
    TestOutput :=
  let ofColumns := TestOutput.gather (columnTests entry) fun declared =>
    match ctx.sourceTest declared.2 with
    | some (.file kind) => ⟨[⟨source ++ "__" ++ table, declared.1, kind⟩], [], []⟩
    | some (.issue message) => ⟨[], [.unsupportedTest message], []⟩
    | _ => .none
  if (declaredTests entry).isEmpty then ofColumns
  else ofColumns.append ⟨[], [.unsupportedTest "table-level source tests are not translated"], []⟩

/-! ## The files of tests -/

theorem GeneratedKind.text_injective : Function.Injective GeneratedKind.text := by
  intro kind kind' h
  cases kind <;> cases kind' <;> first | rfl | exact absurd h (by decide)

theorem GeneratedKind.isTag (kind : GeneratedKind) : IsTag '_' kind.text.toList where
  head := by cases kind <;> decide
  single := by cases kind <;> decide

theorem toList_between : "__".toList = ['_', '_'] :=
  rfl

theorem GeneratedTest.toList_relPath (test : GeneratedTest) :
    test.relPath.toList = "tests/generated/".toList ++
      (test.label.toList ++ '_' :: '_' :: test.kind.text.toList) ++ ".sql".toList := by
  unfold relPath
  rw [String.toList_append, String.toList_append, String.toList_append, String.toList_append,
    toList_between]
  simp only [List.append_assoc, List.cons_append, List.nil_append]

/-- The tests that have one file: those of one kind with one label. -/
theorem GeneratedTest.relPath_eq_iff {test test' : GeneratedTest} :
    test.relPath = test'.relPath ↔ test.kind = test'.kind ∧ test.label = test'.label := by
  rw [← String.toList_inj, toList_relPath, toList_relPath, List.append_left_inj,
    List.append_right_inj, tagged_inj test.kind.isTag test'.kind.isTag, String.toList_inj,
    String.toList_inj, GeneratedKind.text_injective.eq_iff, and_comm]

end PhloTransform.Dbt
