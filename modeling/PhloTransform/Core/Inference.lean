import Mathlib.Data.List.Destutter
import PhloTransform.Core.Lineage
import PhloTransform.Core.TypeText

/-!
# Types and lineage of an expression

The analyzer walks an expression once, against the columns in scope, and infers its type,
whether it can be NULL, the columns it draws from, and whether all of it was analysed.  A
reference that resolves to no column or to several makes the whole expression incomplete.
The parser package prints expressions; its printer is a parameter.

Main results:

- Theorem `Expr.induct`: induction over the subexpressions that the walks go into.
- Theorem `mem_sources_infer`: the recorded columns are those of the identifiers that the
  other walk collects.
-/

namespace PhloTransform.Core

/-- `Nullability::merge`. -/
def Nullability.merge : Nullability → Nullability → Nullability
  | .notNull, .notNull => .notNull
  | .unknown, _ | _, .unknown => .unknown
  | _, _ => .nullable

/-- `Display for Nullability`. -/
def Nullability.display : Nullability → String
  | .notNull => "not null"
  | .nullable => "nullable"
  | .unknown => "unknown"

namespace Columns

/-! ## Expressions -/

/-- A literal, numbers and strings by their text. -/
inductive Literal where
  | number (text : String)
  | boolean (value : Bool)
  | null
  | string (text : String)
  | other (text : String)

inductive UnaryOperator where
  | not | minus | plus
  | other (text : String)

inductive BinaryOperator where
  | plus | minus | multiply | modulo | divide | stringConcat
  | gt | lt | gtEq | ltEq | eq | notEq | and | or | xor
  | other (text : String)

inductive CastKind where
  | cast | tryCast | safeCast | doubleColon
deriving DecidableEq

/-- `IS NULL` and the other tests of this form. -/
inductive Test where
  | isNull | isNotNull | isTrue | isNotTrue | isFalse | isNotFalse | isUnknown | isNotUnknown

inductive Pattern where
  | like | iLike | similarTo

/-- The arguments of a call; of a list, those that are unnamed expressions. -/
inductive Arguments (ε : Type) where
  | none
  | subquery
  | list (unnamed : List ε)

/-- `OVER`: a window of the WINDOW clause, or its keys. -/
inductive Window (ε : Type) where
  | none
  | named (name : String)
  | spec (partitionBy orderBy : List ε)

/-- An expression of the parser package, as far as the analyzer distinguishes it. -/
inductive Expr where
  | identifier (name : String)
  | compound (idents : List String)
  | value (value : Literal)
  | typedString (dataType text : String)
  | nested (inner : Expr)
  | cast (kind : CastKind) (inner : Expr) (dataType : String)
  | unaryOp (op : UnaryOperator) (inner : Expr)
  | binaryOp (left : Expr) (op : BinaryOperator) (right : Expr)
  | test (kind : Test) (inner : Expr)
  | inList (inner : Expr) (list : List Expr) (negated : Bool)
  | between (inner low high : Expr) (negated : Bool)
  | like (kind : Pattern) (inner pattern : Expr) (negated : Bool)
  | case (operand : Option Expr) (conditions : List (Expr × Expr)) (elseResult : Option Expr)
  /-- A call.  Its named arguments, its filter and its orderings are not read. -/
  | function (name : Option String) (args : Arguments Expr) (window : Window Expr)
      (unread : List Expr)
  | extract (inner : Expr)
  | substring (inner : Expr) (start length : Option Expr)
  | trim (inner : Expr) (what : Option Expr) (characters : List Expr)
  | round (up : Bool) (inner : Expr)
  /-- An interval, a tuple, an array, a map or a struct. -/
  | composite (text : String)
  | subquery (text : String)
  | other (text : String)

def Arguments.unnamed : Arguments Expr → List Expr
  | .list unnamed => unnamed
  | .none | .subquery => []

def Arguments.isAnalysed : Arguments Expr → Bool
  | .subquery => false
  | .none | .list _ => true

def Window.partitionBy : Window Expr → List Expr
  | .spec partitionBy _ => partitionBy
  | .none | .named _ => []

def Window.isWindow : Window Expr → Bool
  | .none => false
  | .named _ | .spec _ _ => true

def Window.orderBy : Window Expr → List Expr
  | .spec _ orderBy => orderBy
  | .none | .named _ => []

namespace Expr

/-- The subexpressions that the walks go into, in their order. -/
def parts : Expr → List Expr
  | nested inner | cast _ inner _ | unaryOp _ inner | test _ inner | extract inner
  | round _ inner => [inner]
  | binaryOp left _ right => [left, right]
  | inList inner list _ => inner :: list
  | between inner low high _ => [inner, low, high]
  | like _ inner pattern _ => [inner, pattern]
  | case operand conditions elseResult =>
    operand.toList ++ conditions.flatMap (fun branch => [branch.1, branch.2]) ++
      elseResult.toList
  | function _ args window _ => args.unnamed ++ window.partitionBy ++ window.orderBy
  | substring inner start length => inner :: start.toList ++ length.toList
  | trim inner what characters => inner :: what.toList ++ characters
  | identifier _ | compound _ | value _ | typedString _ _ | composite _ | subquery _
  | other _ => []

/-- The subexpressions that no walk goes into. -/
def unread : Expr → List Expr
  | function _ _ _ unread => unread
  | _ => []

theorem sizeOf_lt_of_mem {e p : Expr} (h : p ∈ e.parts ++ e.unread) : sizeOf p < sizeOf e := by
  have hlist (l : List Expr) : p ∈ l → sizeOf p < sizeOf l := List.sizeOf_lt_of_mem
  have hbranch (l : List (Expr × Expr)) (a b : Expr) : (a, b) ∈ l →
      sizeOf a + sizeOf b < sizeOf l := by
    intro hmem
    have := List.sizeOf_lt_of_mem hmem
    simp only [Prod.mk.sizeOf_spec] at this
    omega
  cases e with
  | case operand conditions elseResult =>
    cases operand <;> cases elseResult <;> simp [parts, unread] at h ⊢ <;> grind
  | function name args window unread =>
    cases args <;> cases window <;>
      simp [parts, Expr.unread, Arguments.unnamed, Window.partitionBy, Window.orderBy] at h ⊢ <;>
      grind
  | substring inner start length =>
    cases start <;> cases length <;> simp [parts, unread] at h ⊢ <;> grind
  | trim inner what characters =>
    cases what <;> simp [parts, unread] at h ⊢ <;> grind
  | _ => simp [parts, unread] at h ⊢ <;> grind

/-- Induction over what the walks go into. -/
theorem induct {P : Expr → Prop} (step : ∀ e, (∀ p ∈ e.parts, P p) → P e) (e : Expr) : P e :=
  step e fun p hp =>
    have := sizeOf_lt_of_mem (List.mem_append_left e.unread hp)
    induct step p
termination_by sizeOf e

/-- `collect_identifiers`: references with the last qualifier, if any. -/
def identifiers : Expr → List (Option String × String)
  | identifier name => [(none, name)]
  | compound idents =>
    match idents.reverse with
    | name :: qualifier :: _ => [(some qualifier, name)]
    | _ => []
  | e => e.parts.attach.flatMap fun p => identifiers p.1
termination_by e => sizeOf e
decreasing_by exact sizeOf_lt_of_mem (List.mem_append_left _ p.2)

end Expr

/-! ## Columns in scope -/

/-- A column with what it draws from; `complete` unless part of it was not analysed. -/
structure Column where
  name : String
  dataType : DataType
  nullability : Nullability
  inputs : List ColumnInput
  complete : Bool

/-- A relation that columns resolve in. -/
structure ScopedRelation where
  qualifier : Option String
  columns : List Column

abbrev Scope := List ScopedRelation

/-- `eq_ignore_ascii_case`. -/
def sameName (a b : String) : Bool :=
  Library.asciiLower a.toList == Library.asciiLower b.toList

namespace Scope

def allColumns (scope : Scope) : List Column :=
  scope.flatMap ScopedRelation.columns

def columnsForQualifier (scope : Scope) (qualifier : String) : List Column :=
  allColumns (scope.filter fun relation => relation.qualifier.any (sameName · qualifier))

def resolve (scope : Scope) (qualifier : Option String) (name : String) : List Column :=
  (match qualifier with
    | some qualifier => scope.columnsForQualifier qualifier
    | none => scope.allColumns).filter fun column => sameName column.name name

end Scope

/-! ## Inputs -/

def sortKey (input : ColumnInput) :
    Lex (List String × Lex (String × Lex (Nat × Lex (Nat × Lex (Nat × List String))))) :=
  let relation := match input.relation with
    | .model id => "" :: id.ns :: id.path
    | .source id => "1" :: id.parts
  toLex (relation, toLex (input.column, toLex (input.directness.ctorIdx,
    toLex (input.transformation.ctorIdx,
      toLex (input.confidence.ctorIdx, input.expression.toList)))))

/-- What two inputs of one list do not share. -/
def contribution (input : ColumnInput) : RelationRef × String × Directness × Transformation :=
  (input.relation, input.column, input.directness, input.transformation)

/-- Sort inputs and keep the first of those that agree. -/
def dedupBy {κ : Type} [DecidableEq κ] (key : ColumnInput → κ) (inputs : List ColumnInput) :
    List ColumnInput :=
  (inputs.insertionSort fun a b => sortKey a ≤ sortKey b).destutter fun a b => key a ≠ key b

/-- Two entries of one column collapse when they agree on how it contributes. -/
def dedup (inputs : List ColumnInput) : List ColumnInput :=
  dedupBy contribution inputs

/-- Direct inputs take over the transformation. -/
def retag (kind : Transformation) (text : String) (inputs : List ColumnInput) :
    List ColumnInput :=
  inputs.map fun input =>
    if input.directness = .direct then
      { input with transformation := kind, expression := some text }
    else input

def markIndirect (kind : Transformation) (text : String) (inputs : List ColumnInput) :
    List ColumnInput :=
  inputs.map fun input =>
    { input with directness := .indirect, transformation := kind, expression := some text }

/-- The columns behind some inputs. -/
def sources (inputs : List ColumnInput) : List (RelationRef × String) :=
  inputs.map fun input => (input.relation, input.column)

/-! ## Inference -/

/-- Inferred attributes of an expression.  `aggregates` when it contains an aggregate or a
window function. -/
structure Inferred where
  dataType : DataType
  nullability : Nullability
  inputs : List ColumnInput
  complete : Bool
  aggregates : Bool

namespace Inferred

@[simp]
def unknown : Inferred where
  dataType := .unknown
  nullability := .unknown
  inputs := []
  complete := false
  aggregates := false

@[simp]
def unknownFrom (inputs : List ColumnInput) (complete : Bool) : Inferred :=
  { unknown with inputs, complete }

/-- What the parts contribute together. -/
@[simp]
def gather (parts : List Inferred) : Inferred :=
  { unknown with
    inputs := parts.flatMap Inferred.inputs
    complete := parts.all Inferred.complete
    aggregates := parts.any Inferred.aggregates }

@[simp]
def retag (kind : Transformation) (text : String) (i : Inferred) : Inferred :=
  { i with inputs := Columns.retag kind text i.inputs }

@[simp]
def dedup (i : Inferred) : Inferred :=
  { i with inputs := Columns.dedup i.inputs }

end Inferred

/-- `infer_value`: a number with a point or an exponent is a double. -/
def inferValue (value : Literal) : Inferred :=
  let (dataType, nullability) := match value with
    | .number text =>
      (if text.toList.any (· ∈ ['.', 'e', 'E']) then DataType.double else .integer,
        Nullability.notNull)
    | .boolean _ => (.boolean, .notNull)
    | .null => (.unknown, .nullable)
    | .string _ => (.varchar, .notNull)
    | .other _ => (.unknown, .unknown)
  { dataType, nullability, inputs := [], complete := true, aggregates := false }

/-- `merge_type`. -/
def mergeType (slot : Option DataType) (incoming : DataType) : Option DataType :=
  match slot with
  | some existing => some (existing.widen incoming)
  | none => some incoming

def inferBinary (op : BinaryOperator) (left right : Inferred) (text : String) : Inferred :=
  let gathered := ((Inferred.gather [left, right]).retag .transformation text).dedup
  let typed (dataType : DataType) : Inferred :=
    { gathered with dataType, nullability := left.nullability.merge right.nullability }
  match op with
  | .plus | .minus | .multiply | .modulo => typed (left.dataType.widen right.dataType)
  | .divide =>
    typed (if left.dataType.isNumeric && right.dataType.isNumeric then .double else .unknown)
  | .stringConcat => typed .varchar
  | .gt | .lt | .gtEq | .ltEq | .eq | .notEq | .and | .or | .xor => typed .boolean
  | .other _ => .unknownFrom gathered.inputs gathered.complete

/-- Function names treated as aggregates. -/
def isAggregate (name : String) : Bool :=
  name ∈ ["count", "count_if", "sum", "avg", "min", "max", "arbitrary", "any_value",
    "approx_distinct", "approx_percentile", "approx_set", "stddev", "stddev_samp",
    "stddev_pop", "variance", "var_samp", "var_pop", "bool_and", "bool_or", "every",
    "array_agg", "listagg", "checksum", "merge"]

def functionType (name : String) (args : List DataType) : DataType :=
  let first := args.head?.getD .unknown
  if name ∈ ["count", "count_if", "approx_distinct", "length", "cardinality", "row_number",
    "rank", "dense_rank", "ntile"] then .bigInt
  else if name ∈ ["sum", "min", "max", "arbitrary", "any_value", "abs", "round", "truncate",
    "ceil", "floor", "sign", "cast", "try_cast"] then first
  else if name ∈ ["avg", "approx_percentile", "stddev", "variance"] then .double
  else if name ∈ ["bool_and", "bool_or", "every"] then .boolean
  else if name = "array_agg" then .array first
  else if name ∈ ["coalesce", "if", "greatest", "least", "nullif"] then
    (args.foldl mergeType none).getD .unknown
  else if name ∈ ["concat", "lower", "upper", "substr", "substring", "trim", "ltrim", "rtrim",
    "replace", "format", "format_datetime", "json_extract_scalar"] then .varchar
  else if name ∈ ["date", "current_date"] then .date
  else if name ∈ ["now", "current_timestamp", "localtimestamp"] then .timestampTz
  else if name = "date_trunc" then .timestamp
  else .unknown

/-- The functions whose result is taken for never NULL. -/
def neverNull (name : String) : Bool :=
  name ∈ ["count", "count_if", "approx_distinct", "row_number", "rank", "dense_rank",
    "current_date", "now", "current_timestamp", "localtimestamp"]

def inferFunction (name : String) (args : List DataType) (inputs : List ColumnInput) :
    Inferred where
  dataType := functionType name args
  nullability := if neverNull name then .notNull else .unknown
  inputs := inputs
  complete := true
  aggregates := false

/-- What a call does to its direct inputs. -/
def callKind (windowed aggregate : Bool) (name : String) : Transformation :=
  if windowed then .window
  else if aggregate then .aggregation
  else if name ∈ ["if", "ifnull", "nullif", "coalesce"] then .conditional
  else .transformation

/-- A call: partition and order keys influence the value without flowing into it. -/
def inferCall (text name : String) (analysed : Bool) (arguments : List Inferred)
    (windowed : Bool) (keys : List Inferred × List Inferred) : Inferred :=
  let inputs := arguments.flatMap Inferred.inputs ++
    keys.1.flatMap (fun key => markIndirect .groupBy text key.inputs) ++
    keys.2.flatMap (fun key => markIndirect .sort text key.inputs)
  { inferFunction name (arguments.map Inferred.dataType)
      (dedup (retag (callKind windowed (isAggregate name) name) text inputs)) with
    complete := analysed && (arguments ++ keys.1 ++ keys.2).all Inferred.complete
    aggregates := arguments.any Inferred.aggregates || isAggregate name || windowed }

/-- `str::to_lowercase` and the printer of the parser package. -/
structure Language where
  lower : String → String
  text : Expr → String

/-- `resolve_column`: exactly one column must match. -/
def resolveColumn (scope : Scope) (qualifier : Option String) (name : String) : Inferred :=
  match scope.resolve qualifier name with
  | [column] => { column with aggregates := false }
  | _ => .unknown

section Infer

variable (lang : Language) (scope : Scope)

/-- The inputs of the parts, as one transformation. -/
def composed (dataType : DataType) (nullability : Nullability) (e : Expr)
    (parts : List Inferred) : Inferred :=
  { ((Inferred.gather parts).retag .transformation (lang.text e)).dedup with
    dataType, nullability }

mutual

def infer : Expr → Inferred
  | .identifier name => resolveColumn scope none name
  | .compound idents =>
    match idents.reverse with
    | name :: qualifier :: _ => resolveColumn scope (some qualifier) name
    | _ => .unknown
  | .value value => inferValue value
  | .typedString dataType _ =>
    { Inferred.gather [] with dataType := .parseTrino dataType, nullability := .notNull }
  | .nested inner => infer inner
  | e@(.cast kind inner dataType) =>
    let inner := (infer inner).retag .transformation (lang.text e)
    { inner with
      dataType := .parseTrino dataType
      nullability := if kind = .tryCast then .nullable else inner.nullability }
  | .unaryOp op inner =>
    let inner := (infer inner).retag .transformation (lang.text (.unaryOp op inner))
    match op with
    | .not => { inner with dataType := .boolean }
    | .minus | .plus => inner
    | .other _ => .unknownFrom inner.inputs inner.complete
  | e@(.binaryOp left op right) => inferBinary op (infer left) (infer right) (lang.text e)
  | e@(.test _ inner) =>
    { (infer inner).retag .transformation (lang.text e) with
      dataType := .boolean, nullability := .notNull }
  | e@(.inList inner list _) => composed lang .boolean .unknown e (infer inner :: inferAll list)
  | e@(.between inner low high _) =>
    composed lang .boolean .unknown e [infer inner, infer low, infer high]
  | e@(.like _ inner pattern _) => composed lang .boolean .unknown e [infer inner, infer pattern]
  | e@(.case operand conditions elseResult) =>
    let branches := inferConditions conditions
    let results := branches.map Prod.snd ++ inferOption elseResult
    let parts := inferOption operand ++ branches.flatMap (fun branch => [branch.1, branch.2]) ++
      inferOption elseResult
    { ((Inferred.gather parts).retag .conditional (lang.text e)).dedup with
      dataType := ((results.map Inferred.dataType).foldl mergeType none).getD .unknown
      nullability := (results.map Inferred.nullability).foldl .merge
        (if elseResult.isSome then .notNull else .nullable) }
  | e@(.function name args window _) =>
    inferCall (lang.text e) ((name.map lang.lower).getD "") args.isAnalysed
      (inferArguments args) window.isWindow (inferWindow window)
  | e@(.extract inner) =>
    { (infer inner).retag .transformation (lang.text e) with
      dataType := .bigInt, nullability := .nullable }
  | e@(.substring inner start length) =>
    composed lang .varchar .nullable e (infer inner :: inferOption start ++ inferOption length)
  | e@(.trim inner what characters) =>
    composed lang .varchar .nullable e (infer inner :: inferOption what ++ inferAll characters)
  | e@(.round _ inner) => (infer inner).retag .transformation (lang.text e)
  | .composite _ | .subquery _ | .other _ => .unknown

def inferAll : List Expr → List Inferred
  | [] => []
  | e :: rest => infer e :: inferAll rest

def inferOption : Option Expr → List Inferred
  | some e => [infer e]
  | none => []

def inferArguments : Arguments Expr → List Inferred
  | .list unnamed => inferAll unnamed
  | .none | .subquery => []

def inferWindow : Window Expr → List Inferred × List Inferred
  | .spec partitionBy orderBy => (inferAll partitionBy, inferAll orderBy)
  | .none | .named _ => ([], [])

def inferConditions : List (Expr × Expr) → List (Inferred × Inferred)
  | [] => []
  | (condition, result) :: rest => (infer condition, infer result) :: inferConditions rest

end

end Infer

/-- An identifier, with or without a qualifier. -/
def Expr.isReference : Expr → Bool
  | identifier _ | compound _ => true
  | _ => false

/-- The walk understands this form of expression. -/
def Expr.isAnalysed : Expr → Bool
  | compound idents =>
    match idents.reverse with
    | _ :: _ :: _ => true
    | _ => false
  | function _ args _ _ => args.isAnalysed
  | composite _ | subquery _ | other _ => false
  | _ => true

/-! ## What inference records -/

section Records

variable {lang : Language} {scope : Scope} {s : RelationRef × String}

@[simp]
theorem sources_nil : sources [] = [] :=
  rfl

@[simp]
theorem sources_append (x y : List ColumnInput) : sources (x ++ y) = sources x ++ sources y :=
  List.map_append

@[simp]
theorem sources_retag (kind : Transformation) (text : String) (inputs : List ColumnInput) :
    sources (retag kind text inputs) = sources inputs := by
  simp only [sources, retag, List.map_map]
  apply List.map_congr_left
  intro input _
  by_cases h : input.directness = .direct <;> simp [h]

theorem mem_map_destutter {α β : Type} [DecidableEq β] (f : α → β) (b : β) (l : List α) :
    b ∈ (l.destutter fun x y => f x ≠ f y).map f ↔ b ∈ l.map f := by
  cases l with
  | nil => rfl
  | cons a l =>
    rw [List.destutter_cons']
    induction l generalizing a with
    | nil => rfl
    | cons c l ih =>
      rw [List.destutter'_cons]
      by_cases h : f a = f c
      · rw [if_neg (not_not.2 h), ih a]
        simp [h]
      · rw [if_pos h, List.map_cons, List.mem_cons, ih c, List.map_cons (l := c :: l),
          List.mem_cons]

@[simp]
theorem mem_sources_dedup (inputs : List ColumnInput) :
    s ∈ sources (dedup inputs) ↔ s ∈ sources inputs := by
  have hsources : ∀ l, sources l = (l.map contribution).map fun c => (c.1, c.2.1) := fun l => by
    simp [sources, contribution]
  rw [hsources, hsources, List.mem_map, List.mem_map]
  refine exists_congr fun c => and_congr_left fun _ => ?_
  rw [dedup, dedupBy, mem_map_destutter, List.mem_map, List.mem_map]
  simp only [List.mem_insertionSort]

@[simp]
theorem mem_sources_inputs {l : List Inferred} :
    s ∈ sources (l.flatMap Inferred.inputs) ↔ ∃ i ∈ l, s ∈ sources i.inputs := by
  simp [sources, List.map_flatMap]

@[simp]
theorem mem_sources_markIndirect {kind : Transformation} {text : String} {l : List Inferred} :
    s ∈ sources (l.flatMap fun i => markIndirect kind text i.inputs) ↔
      ∃ i ∈ l, s ∈ sources i.inputs := by
  simp [sources, markIndirect, List.map_flatMap]

@[simp]
theorem inferAll_eq (es : List Expr) : inferAll lang scope es = es.map (infer lang scope) := by
  induction es with
  | nil => rfl
  | cons e es ih => rw [inferAll, ih, List.map_cons]

@[simp]
theorem inferOption_eq (e : Option Expr) :
    inferOption lang scope e = e.toList.map (infer lang scope) := by
  cases e <;> rfl

@[simp]
theorem inferArguments_eq (args : Arguments Expr) :
    inferArguments lang scope args = args.unnamed.map (infer lang scope) := by
  cases args with
  | list unnamed => exact inferAll_eq unnamed
  | _ => rfl

@[simp]
theorem inferWindow_eq (window : Window Expr) : inferWindow lang scope window =
    (window.partitionBy.map (infer lang scope), window.orderBy.map (infer lang scope)) := by
  cases window with
  | spec partitionBy orderBy => exact Prod.ext (inferAll_eq _) (inferAll_eq _)
  | _ => rfl

@[simp]
theorem inferConditions_eq (branches : List (Expr × Expr)) : inferConditions lang scope branches =
    branches.map fun branch => (infer lang scope branch.1, infer lang scope branch.2) := by
  induction branches with
  | nil => rfl
  | cons branch branches ih => rw [inferConditions, ih, List.map_cons]

@[simp]
theorem mem_sources_inferBinary (op : BinaryOperator) (left right : Inferred) (text : String) :
    s ∈ sources (inferBinary op left right text).inputs ↔
      s ∈ sources left.inputs ∨ s ∈ sources right.inputs := by
  cases op <;> simp [inferBinary]

@[simp]
theorem complete_inferBinary (op : BinaryOperator) (left right : Inferred) (text : String) :
    (inferBinary op left right text).complete = (left.complete && right.complete) := by
  cases op <;> simp [inferBinary]

@[simp]
theorem mem_sources_inferCall {text name : String} {analysed windowed : Bool}
    {arguments : List Inferred} {keys : List Inferred × List Inferred} :
    s ∈ sources (inferCall text name analysed arguments windowed keys).inputs ↔
      ∃ i ∈ arguments ++ keys.1 ++ keys.2, s ∈ sources i.inputs := by
  change s ∈ sources (dedup _) ↔ _
  simp only [mem_sources_dedup, sources_retag, sources_append, List.mem_append,
    mem_sources_inputs, mem_sources_markIndirect, or_and_right, exists_or]

@[simp]
theorem complete_inferCall {text name : String} {analysed windowed : Bool}
    {arguments : List Inferred} {keys : List Inferred × List Inferred} :
    (inferCall text name analysed arguments windowed keys).complete =
      (analysed && (arguments ++ keys.1 ++ keys.2).all Inferred.complete) :=
  rfl

/-- One node: the recorded columns are those of the parts. -/
theorem mem_sources_parts {e : Expr} (h : e.isReference = false) :
    s ∈ sources (infer lang scope e).inputs ↔
      ∃ p ∈ e.parts, s ∈ sources (infer lang scope p).inputs := by
  cases e with
  | identifier | compound => cases h
  | value value => cases value <;> simp [infer, inferValue, Expr.parts]
  | unaryOp op inner => cases op <;> simp [infer, Expr.parts]
  | case | substring | trim =>
    simp [infer, composed, Expr.parts]
    grind
  | function =>
    rw [infer, mem_sources_inferCall, inferArguments_eq, inferWindow_eq, ← List.map_append,
      ← List.map_append]
    simp only [List.mem_map, exists_exists_and_eq_and, Expr.parts]
  | _ => simp [infer, composed, Expr.parts]

/-- One node: a composite is complete when its parts are. -/
theorem complete_parts {e : Expr} (h : e.isReference = false) :
    (infer lang scope e).complete = true ↔
      e.isAnalysed = true ∧ ∀ p ∈ e.parts, (infer lang scope p).complete = true := by
  cases e with
  | identifier | compound => cases h
  | value value => cases value <;> simp [infer, inferValue, Expr.parts, Expr.isAnalysed]
  | unaryOp op inner => cases op <;> simp [infer, Expr.parts, Expr.isAnalysed]
  | case | substring | trim =>
    simp [infer, composed, Expr.parts, Expr.isAnalysed]
    grind
  | function =>
    simp [infer, Expr.parts, Expr.isAnalysed]
    grind
  | _ => simp [infer, composed, Expr.parts, Expr.isAnalysed]

theorem mem_identifiers_parts {e : Expr} (h : e.isReference = false)
    {id : Option String × String} : id ∈ e.identifiers ↔ ∃ p ∈ e.parts, id ∈ p.identifiers := by
  have heq : e.identifiers = e.parts.attach.flatMap fun p => p.1.identifiers := by
    cases e with
    | identifier | compound => cases h
    | _ => rw [Expr.identifiers] <;> exact fun _ heq => by cases heq
  simp [heq]

theorem mem_sources_resolveColumn (qualifier : Option String) (name : String) :
    s ∈ sources (resolveColumn scope qualifier name).inputs ↔
      ∃ column, scope.resolve qualifier name = [column] ∧ s ∈ sources column.inputs := by
  unfold resolveColumn
  split
  · next hcolumn => simp [hcolumn]
  · next hnot => simp [show ∀ column, scope.resolve qualifier name ≠ [column] from hnot]

theorem resolveColumn_complete (qualifier : Option String) (name : String) :
    (resolveColumn scope qualifier name).complete = true ↔
      ∃ column, scope.resolve qualifier name = [column] ∧ column.complete = true := by
  unfold resolveColumn
  split
  · next hcolumn => simp [hcolumn]
  · next hnot => simp [show ∀ column, scope.resolve qualifier name ≠ [column] from hnot]

/-- The walk that infers and the walk that collects identifiers agree: the recorded columns
are those behind the collected identifiers that resolve to one column. -/
theorem mem_sources_infer (e : Expr) :
    s ∈ sources (infer lang scope e).inputs ↔
      ∃ id ∈ e.identifiers, ∃ column,
        scope.resolve id.1 id.2 = [column] ∧ s ∈ sources column.inputs := by
  induction e using Expr.induct with
  | step e ih =>
    by_cases h : e.isReference = false
    · rw [mem_sources_parts h]
      simp only [mem_identifiers_parts h]
      constructor
      · rintro ⟨p, hp, hs⟩
        obtain ⟨id, hid, hcolumn⟩ := (ih p hp).1 hs
        exact ⟨id, ⟨p, hp, hid⟩, hcolumn⟩
      · rintro ⟨id, ⟨p, hp, hid⟩, hcolumn⟩
        exact ⟨p, hp, (ih p hp).2 ⟨id, hid, hcolumn⟩⟩
    · cases e with
      | identifier name =>
        simpa [infer, Expr.identifiers] using mem_sources_resolveColumn none name
      | compound idents =>
        rw [infer, Expr.identifiers]
        split
        · next name qualifier _ _ =>
          simpa using mem_sources_resolveColumn (some qualifier) name
        · simp
      | _ => simp [Expr.isReference] at h

/-- Every form of expression in it is understood. -/
inductive Expr.Understood : Expr → Prop where
  | intro {e : Expr} (here : e.isAnalysed = true) (parts : ∀ p ∈ e.parts, p.Understood) :
    e.Understood

/-- An expression is complete exactly when the walk understands all of it and every
identifier that it collects resolves to one column, which is complete. -/
theorem complete_infer_iff (e : Expr) :
    (infer lang scope e).complete = true ↔
      e.Understood ∧ ∀ id ∈ e.identifiers, ∃ column,
        scope.resolve id.1 id.2 = [column] ∧ column.complete = true := by
  induction e using Expr.induct with
  | step e ih =>
    have hunderstood : e.Understood ↔ e.isAnalysed = true ∧ ∀ p ∈ e.parts, p.Understood :=
      ⟨fun ⟨here, parts⟩ => ⟨here, parts⟩, fun ⟨here, parts⟩ => ⟨here, parts⟩⟩
    by_cases h : e.isReference = false
    · rw [complete_parts h, hunderstood]
      simp only [mem_identifiers_parts h]
      constructor
      · rintro ⟨here, hparts⟩
        refine ⟨⟨here, fun p hp => ((ih p hp).1 (hparts p hp)).1⟩, ?_⟩
        rintro id ⟨p, hp, hid⟩
        exact ((ih p hp).1 (hparts p hp)).2 id hid
      · rintro ⟨⟨here, hparts⟩, hids⟩
        exact ⟨here, fun p hp => (ih p hp).2 ⟨hparts p hp, fun id hid => hids id ⟨p, hp, hid⟩⟩⟩
    · cases e with
      | identifier name =>
        simpa [infer, Expr.identifiers, hunderstood, Expr.isAnalysed, Expr.parts] using
          (resolveColumn_complete none name)
      | compound idents =>
        rw [infer, Expr.identifiers, hunderstood, Expr.isAnalysed]
        split
        · next name qualifier _ _ =>
          simpa [Expr.parts] using resolveColumn_complete (some qualifier) name
        · simp
      | _ => simp [Expr.isReference] at h

end Records

end Columns

end PhloTransform.Core
