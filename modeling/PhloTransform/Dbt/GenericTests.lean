import Mathlib.Algebra.GroupWithZero.Nat
import PhloTransform.Dbt.Incremental
import PhloTransform.Library.Queries

/-!
# Generic tests and their native forms

A generic test of a dbt project is emitted as a query, as a directive whose assertion is a query
of the compiler, or is folded into the key of its model.  A native test fails when its query
returns a row.  A test of dbt counts the rows of its own query over the rows of the model that
its `where` keeps, and fails when the count meets `error_if` and its severity is an error.
-/

namespace PhloTransform.Dbt

open Library

/-! ## Tests of a project -/

/-- A generic test and its arguments. -/
inductive TestKind where
  | unique
  | notNull
  | acceptedValues (values : List Lit) (quote : Lit)
  | relationships (field : String)
  | expressionIsTrue (expression : String)
  | acceptedRange (minValue maxValue inclusive : Lit)
  | notConstant (groupByColumns : List String)
  | notEmptyString (trimWhitespace : Lit)
  | uniqueCombinationOfColumns (combinationOfColumns : List String)
  | equality (compareColumns : Option (List String)) (unsupported : Bool)
  | equalRowcount (groupByColumns : List String)
  | other (name : String)

/-- The tests that select rows, or the values of rows. -/
def TestKind.isRowwise : TestKind → Bool
  | notNull | acceptedValues _ _ | relationships _ | expressionIsTrue _ | acceptedRange _ _ _
  | notEmptyString _ => true
  | unique | notConstant _ | uniqueCombinationOfColumns _ | equality _ _ | equalRowcount _
  | other _ => false

inductive TestSeverity where
  | error
  | warn
deriving Repr, DecidableEq

/-- A test, with the relation it is on. -/
structure GenericTest (V : Type*) where
  kind : TestKind
  column : Option String
  filter : Option (Condition V)
  severity : TestSeverity
  errorIf : Nat → Bool
  ofSource : Bool
  keyColumns : List String
  keys : List String
  columns : List (List Char)
  columns_nodup : columns.Nodup
  otherColumns : List (List Char)
  filter_reads : ∀ c, filter = some c → ∀ name ∈ c.reads, name ∈ columns

/-- The rows of the tested relation and of the one it is compared with. -/
structure TestTables (V : Type*) where
  model : List (Row V)
  other : List (Row V)

/-- How the warehouse reads texts and compares values. -/
structure Dialect (V : Type*) where
  count : Nat → V
  condition : String → Option (Condition V)
  equal : Option V → String → Option Bool
  compare : Row V → Option V → String → Option Ordering
  compare_null : ∀ row text, compare row none text = none
  trim : Option V → Option V
  isEmptyText : Option V → Option Bool
  /-- How Jinja writes a value that is not a string, an integer or a boolean. -/
  repr : Lit → String

def valueIn {V : Type*} (row : Row V) (name : String) : Option V :=
  row (foldCase name)

namespace Lit

/-- `to_sql_literal`: a scalar rendered to a SQL-friendly literal. -/
def toSqlLiteral : Lit → Option String
  | str value | ident value => some ("'" ++ value.replace "'" "''" ++ "'")
  | int value => some (toString value)
  | float text => some text
  | bool value => some (if value then "true" else "false")
  | nothing | list _ | dict _ | jinja _ => none

/-- `!matches!(value, Lit::Bool(false))`. -/
def notFalse : Lit → Bool
  | bool false => false
  | _ => true

/-- The value is true where Jinja asks for it. -/
def truthy : Lit → Bool
  | bool value => value
  | nothing => false
  | str value | ident value | jinja value => value != ""
  | int value => value != 0
  | float text => !text.toList.all fun c => c == '0' || c == '.' || c == '-'
  | list items => !items.isEmpty
  | dict items => !items.isEmpty

/-- The value equals Python's `True`. -/
def isTrue : Lit → Bool
  | bool value => value
  | int value => value == 1
  | float text => text == "1"
  | _ => false

def render (repr : Lit → String) : Lit → String
  | str value | ident value => value
  | int value => toString value
  | bool value => if value then "True" else "False"
  | other => repr other

end Lit

/-! ## Native tests -/

/-- The side of a range that a value is outside of. -/
inductive Outside where
  | below
  | atOrBelow
  | above
  | atOrAbove
deriving Repr, DecidableEq

/-- `<`, `<=`, `>` and `>=`. -/
def Outside.holds : Outside → Ordering → Bool
  | below, order => order == .lt
  | atOrBelow, order => order != .gt
  | above, order => order == .gt
  | atOrAbove, order => order != .lt

/-- The query of a native test. -/
inductive NativeQuery where
  /-- `select columns, count(*) as n from model group by columns having count(*) > 1`. -/
  | duplicates (columns : List String)
  | isNull (column : String)
  | notIn (column : String) (literals : List String)
  /-- `select child.* from model child left join other parent on child.column = parent.field
  where child.column is not null and parent.field is null`. -/
  | orphans (column field : String)
  | violations (expression : String)
  /-- `select * from model where column is not null and (column op bound or …)`. -/
  | outside (column : String) (bounds : List (Outside × String))
  /-- `select groups, count(distinct column) as n from model group by groups
  having count(distinct column) = 1`. -/
  | constant (groups : List String) (column : String)
  /-- `select * from model where column = ''`, perhaps trimmed. -/
  | emptyStrings (column : String) (trim : Bool)
  /-- `(select columns from model except all select columns from other) union all` the reverse;
  without columns `select *`. -/
  | difference (columns : Option (List String))
  /-- `select * from (select (select count(*) from model) as here,
  (select count(*) from other) as there) t where here <> there`. -/
  | rowcounts
deriving Repr, DecidableEq

/-- The queries that select rows of the model. -/
def NativeQuery.isRowwise : NativeQuery → Bool
  | isNull _ | notIn _ _ | orphans _ _ | violations _ | outside _ _ | emptyStrings _ _ => true
  | duplicates _ | constant _ _ | difference _ | rowcounts => false

/-- What a test is translated to. -/
inductive Emission where
  | test (query : NativeQuery)
  | notNull (column : String)
  /-- Nothing: the key of the model implies that the column is unique. -/
  | foldedUnique
  /-- Nothing: the key of the model implies that the column is not null. -/
  | foldedNotNull (column : String)
deriving Repr, DecidableEq

/-- `accepted_values`: the literals of the native test. -/
def acceptedLiterals (values : List Lit) : List String :=
  values.map fun value => value.toSqlLiteral.getD "NULL"

/-- `accepted_range`: the bounds of the native test. -/
def rangeBounds (minValue maxValue inclusive : Lit) : List (Outside × String) :=
  let strict := inclusive.notFalse
  (minValue.toSqlLiteral.map fun bound => (if strict then .below else .atOrBelow, bound)).toList ++
    (maxValue.toSqlLiteral.map fun bound =>
      (if strict then .above else .atOrAbove, bound)).toList

namespace GenericTest

variable {V : Type*} (t : GenericTest V)

/-- `translate_generic_test`; nothing stands for an issue. -/
def translateGenericTest : Option Emission :=
  match t.kind, t.column with
  | .unique, some column =>
    some (if column ∈ t.keyColumns then .foldedUnique else .test (.duplicates [column]))
  | .notNull, some column =>
    some (if column ∈ t.keyColumns then .foldedNotNull column else .notNull column)
  | .acceptedValues values _, some column =>
    some (.test (.notIn column (acceptedLiterals values)))
  | .relationships field, some column => some (.test (.orphans column field))
  | .expressionIsTrue expression, _ => some (.test (.violations expression))
  | .acceptedRange minValue maxValue inclusive, some column =>
    let bounds := rangeBounds minValue maxValue inclusive
    if bounds.isEmpty then none else some (.test (.outside column bounds))
  | .notConstant groups, some column => some (.test (.constant groups column))
  | .notEmptyString trim, some column => some (.test (.emptyStrings column trim.notFalse))
  | .uniqueCombinationOfColumns columns, _ =>
    if columns.isEmpty then none else some (.test (.duplicates columns))
  | .equality columns unsupported, _ =>
    if unsupported then none else some (.test (.difference columns))
  | .equalRowcount _, _ => some (.test .rowcounts)
  | _, _ => none

/-- `emit_source_tests`; nothing stands for an issue. -/
def emitSourceTests : Option Emission :=
  match t.kind, t.column with
  | .unique, some column => some (.test (.duplicates [column]))
  | .notNull, some column => some (.test (.isNull column))
  | .acceptedValues values _, some column =>
    some (.test (.notIn column (acceptedLiterals values)))
  | _, _ => none

def emission : Option Emission :=
  if t.ofSource then t.emitSourceTests else t.translateGenericTest

/-- The query that runs, and its filter: only the test files of a model have one.  Assertions of
a key are for the key that the model is emitted with. -/
def runs : Emission → Option (NativeQuery × Option (Condition V))
  | .test query => some (query, if t.ofSource then none else t.filter)
  | .notNull column => some (.isNull column, none)
  | .foldedUnique => if t.keys.isEmpty then none else some (.duplicates t.keys, none)
  | .foldedNotNull column => if column ∈ t.keys then some (.isNull column, none) else none

end GenericTest

/-! ## Their results -/

section Native

variable {V : Type*} [DecidableEq V] (d : Dialect V)

def tupleOf (columns : List String) (row : Row V) : List (Option V) :=
  columns.map (valueIn row)

omit [DecidableEq V] in
/-- `column not in (literals)` is true. -/
def notIn (value : Option V) (literals : List String) : Bool :=
  literals.all fun literal => d.equal value literal == some false

/-- No row of the other relation has the value. -/
def orphaned (other : List (Row V)) (column field : String) (row : Row V) : Bool :=
  (valueIn row column).isSome &&
    other.all fun parent => decide (valueIn parent field ≠ valueIn row column)

theorem lawfulBEq_chars : LawfulBEq (List Char) :=
  inferInstance

omit [DecidableEq V] in
/-- `not (condition)` is true; a text that is no condition, or one that reads other columns,
fails. -/
def violates (columns : List (List Char)) (text : String) (row : Row V) : Bool :=
  match d.condition text with
  | some c =>
    haveI := lawfulBEq_chars
    decide (∀ name ∈ c.reads, name ∈ columns) && c.truth row == some false
  | none => false

/-- The number of distinct values of a column; nulls do not count. -/
def countDistinct (column : String) (rows : List (Row V)) : Nat :=
  ((rows.map fun row => valueIn row column).filter Option.isSome).dedup.length

omit [DecidableEq V] in
/-- `value = ''` is true. -/
def emptyText (trim : Bool) (value : Option V) : Bool :=
  d.isEmptyText (if trim then d.trim value else value) == some true

omit [DecidableEq V] in
/-- `value is not null and (value op bound or …)` is true. -/
def outsideOf (bounds : List (Outside × String)) (row : Row V) (value : Option V) : Bool :=
  value.isSome && bounds.any fun bound => (d.compare row value bound.2).any bound.1.holds

/-- The rows that a `select *` of a native test returns. -/
def NativeQuery.flags (columns : List (List Char)) (other : List (Row V)) (row : Row V) :
    NativeQuery → Bool
  | isNull column => (valueIn row column).isNone
  | notIn column literals => Dbt.notIn d (valueIn row column) literals
  | orphans column field => orphaned other column field row
  | violations expression => violates d columns expression row
  | outside column bounds => outsideOf d bounds row (valueIn row column)
  | emptyStrings column trim => emptyText d trim (valueIn row column)
  | duplicates _ | constant _ _ | difference _ | rowcounts => false

/-- What a native query returns.  Positional rows of different lengths are not compared. -/
def NativeQuery.result (columns otherColumns : List (List Char)) (s : TestTables V)
    (query : NativeQuery) : Result V :=
  match query with
  | duplicates names =>
    { columns := names.map foldCase ++ ["n".toList]
      rows := (repeatedKeys (tupleOf names) s.model).map fun k =>
        k ++ [some (d.count (groupSize (tupleOf names) s.model k))] }
  | constant names column =>
    { columns := names.map foldCase ++ ["n".toList]
      rows := ((groupedKeys (tupleOf names) s.model).filter fun k =>
          decide (countDistinct column (s.model.filter fun row =>
            decide (tupleOf names row = k)) = 1)).map fun k => k ++ [some (d.count 1)] }
  | difference (some names) =>
    let here := s.model.map (tupleOf names)
    let there := s.other.map (tupleOf names)
    { columns := names.map foldCase
      rows := here.diff there ++ there.diff here }
  | difference none =>
    let here := s.model.map fun row => columns.map row
    let there := s.other.map fun row => otherColumns.map row
    { columns
      rows := if otherColumns.length = columns.length then
          here.diff there ++ there.diff here
        else [] }
  | rowcounts =>
    { columns := ["here".toList, "there".toList]
      rows := if s.model.length = s.other.length then []
        else [[some (d.count s.model.length), some (d.count s.other.length)]] }
  | query => selectAll columns (s.model.filter fun row => query.flags d columns s.other row)

def GenericTest.reports (t : GenericTest V) (emission : Emission) (s : TestTables V) : Prop :=
  match t.runs emission with
  | some (query, filter) => ((query.result d t.columns t.otherColumns s).filtered filter).rows ≠ []
  | none => False

end Native

/-! ## The tests of dbt -/

section Reference

variable {V : Type*} [DecidableEq V] (d : Dialect V)

namespace GenericTest

omit [DecidableEq V] in
/-- `where` keeps the row. -/
def kept (t : GenericTest V) (row : Row V) : Bool :=
  t.filter.all fun c => c.holds row

def columnName (t : GenericTest V) : String :=
  t.column.getD ""

/-- `accepted_values`: the literals of dbt's test. -/
def dbtLiterals (values : List Lit) (quote : Lit) : List String :=
  values.map fun value =>
    if quote.truthy then "'" ++ value.render d.repr ++ "'" else value.render d.repr

/-- A bound of `accepted_range`, unless it is none. -/
def dbtBound : Lit → Option String
  | .nothing => none
  | bound => some (bound.render d.repr)

/-- `accepted_range`: `not value >= min or not value <= max` is true. -/
def dbtOutside (minValue maxValue inclusive : Lit) (row : Row V) (value : Option V) : Bool :=
  ((dbtBound d minValue).any fun bound => (d.compare row value bound).any fun order =>
      !(order == .gt || inclusive.truthy && order == .eq)) ||
    (dbtBound d maxValue).any fun bound => (d.compare row value bound).any fun order =>
      !(order == .lt || inclusive.truthy && order == .eq)

/-- The text of `expression_is_true`, after the column of a test on a column. -/
def dbtExpression (t : GenericTest V) (expression : String) : String :=
  match t.column with
  | some column => column ++ " " ++ expression
  | none => expression

/-- The rows that a test of dbt selects, or the rows of the values it selects. -/
def dbtFlags (t : GenericTest V) (other : List (Row V)) (row : Row V) : Bool :=
  match t.kind with
  | .notNull => (valueIn row t.columnName).isNone
  | .acceptedValues values quote =>
    notIn d (valueIn row t.columnName) (dbtLiterals d values quote)
  | .relationships field => orphaned other t.columnName field row
  | .expressionIsTrue expression => violates d t.columns (t.dbtExpression expression) row
  | .acceptedRange minValue maxValue inclusive =>
    dbtOutside d minValue maxValue inclusive row (valueIn row t.columnName)
  | .notEmptyString trim => emptyText d trim.isTrue (valueIn row t.columnName)
  | _ => false

/-- The number of failures that a test of dbt counts. -/
def failures (t : GenericTest V) (s : TestTables V) : Nat :=
  let model := s.model.filter t.kept
  match t.kind with
  | .unique =>
    (repeatedKeys (tupleOf [t.columnName])
      (model.filter fun row => (valueIn row t.columnName).isSome)).length
  | .acceptedValues _ _ =>
    (groupedKeys (fun row => valueIn row t.columnName)
      (model.filter fun row => t.dbtFlags d s.other row)).length
  | .uniqueCombinationOfColumns columns => (repeatedKeys (tupleOf columns) model).length
  | .notConstant columns =>
    ((groupedKeys (tupleOf columns) model).filter fun k =>
      decide (countDistinct t.columnName (model.filter fun row =>
        decide (tupleOf columns row = k)) = 1)).length
  | .equality columns _ =>
    let compared := match columns with
      | some (name :: names) => tupleOf (name :: names)
      | some [] | none => fun row => t.columns.map row
    let here := model.map compared
    let there := s.other.map compared
    ((here.filter fun k => decide (k ∉ there)).dedup ++
      (there.filter fun k => decide (k ∉ here)).dedup).length
  | .equalRowcount columns =>
    -- a full join of the groups, on keys that are not null
    let both := (groupedKeys (tupleOf columns) model).filter fun k =>
      decide (k ∈ groupedKeys (tupleOf columns) s.other ∧ NoNull k)
    (both.map fun k => ((groupSize (tupleOf columns) model k : Int) -
      groupSize (tupleOf columns) s.other k).natAbs).sum
  | .other _ => 0
  | .notNull | .relationships _ | .expressionIsTrue _ | .acceptedRange _ _ _
  | .notEmptyString _ => (model.filter fun row => t.dbtFlags d s.other row).length

/-- The verdict on a number of failures. -/
def verdict (t : GenericTest V) (failures : Nat) : Bool :=
  decide (t.severity = .error) && t.errorIf failures

/-- The native test returns a row just when the test of dbt fails. -/
def Agrees (t : GenericTest V) : Prop :=
  ∀ emission, t.emission = some emission →
    ∀ s, t.reports d emission s ↔ t.verdict (t.failures d s)

end GenericTest

end Reference

end PhloTransform.Dbt
