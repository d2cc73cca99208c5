import Mathlib.Data.List.Basic
import Mathlib.Tactic.Common

/-!
# Relation schemas

Column types, the schemas that the analysis derives and the adapters report, and how safe
it is to evolve a materialised schema into a desired one.

Main results:

- Theorem `classifySchemaChange_needsRebuild_iff`: when a schema change demands a full
  rebuild.
-/

namespace PhloTransform.Core

/-! ## Types -/

mutual

/-- The type of a column. -/
inductive DataType where
  | boolean
  | tinyInt
  | smallInt
  | integer
  | bigInt
  | real
  | double
  | decimal
  | varchar
  | varbinary
  | date
  | time
  | timestamp
  | timestampTz
  | array (inner : DataType)
  | map (key value : DataType)
  | row (fields : FieldTypes)
  | unknown

/-- The types of the fields of a row. -/
inductive FieldTypes where
  | nil
  | cons (first : DataType) (rest : FieldTypes)

end

deriving instance Repr, DecidableEq for DataType, FieldTypes

namespace DataType

def isKnown : DataType → Bool
  | unknown => false
  | _ => true

def isNumeric : DataType → Bool
  | tinyInt | smallInt | integer | bigInt | real | double | decimal => true
  | _ => false

def rank : DataType → Nat
  | tinyInt => 1
  | smallInt => 2
  | integer => 3
  | bigInt => 4
  | real => 5
  | double => 6
  | decimal => 7
  | _ => 0

/-- Widest of two numeric types, or `unknown` if not comparable. -/
def widen (left right : DataType) : DataType :=
  if left = unknown ∨ right = unknown then unknown
  else if left = right then left
  else if left.isNumeric && right.isNumeric then
    if left.rank ≥ right.rank then left else right
  else unknown

/-- A column of the current type can be kept for the desired one: the types are the same, or
the desired one is the wider number. -/
def evolves (desired current : DataType) : Bool :=
  decide (desired = current) ||
    desired.isNumeric && current.isNumeric && decide (widen desired current = desired)

theorem isKnown_of_isNumeric {type : DataType} (h : type.isNumeric = true) :
    type.isKnown = true := by
  cases type with
  | unknown => cases h
  | _ => rfl

end DataType

/-- Nullability of a column. -/
inductive Nullability where
  | notNull
  | nullable
  | unknown
deriving Repr, DecidableEq

/-- A column of a relation. -/
structure SchemaColumn where
  name : String
  dataType : DataType
  nullability : Nullability
deriving Repr, DecidableEq

/-- The output schema of a model. -/
structure ModelSchema where
  columns : List SchemaColumn
  known : Bool
deriving Repr, DecidableEq

/-! ## Schema changes -/

/-- Safety classification for an incremental schema change. -/
inductive SchemaChangeSafety where
  | safe
  | review
  | fullRebuildRequired
  | error
deriving Repr, DecidableEq

namespace SchemaChangeSafety

def rank : SchemaChangeSafety → Nat
  | safe => 0
  | review => 1
  | fullRebuildRequired => 2
  | error => 3

/-- The safety so far, or the candidate when that is worse. -/
def raise (safety candidate : SchemaChangeSafety) : SchemaChangeSafety :=
  if candidate.rank > safety.rank then candidate else safety

/-- `FullRebuildRequired` or `Error`. -/
def needsRebuild : SchemaChangeSafety → Bool
  | fullRebuildRequired | error => true
  | safe | review => false

theorem needsRebuild_raise (safety candidate : SchemaChangeSafety) :
    (safety.raise candidate).needsRebuild = (safety.needsRebuild || candidate.needsRebuild) := by
  cases safety <;> cases candidate <;> rfl

theorem needsRebuild_foldl_raise (safety : SchemaChangeSafety)
    (candidates : List SchemaChangeSafety) :
    (candidates.foldl raise safety).needsRebuild =
      (safety.needsRebuild || candidates.any needsRebuild) := by
  induction candidates generalizing safety with
  | nil => simp
  | cons candidate candidates ih =>
    rw [List.foldl_cons, ih, needsRebuild_raise, List.any_cons, Bool.or_assoc]

end SchemaChangeSafety

open SchemaChangeSafety in
/-- What an existing column demands of the desired ones. -/
def existingColumnSafety (desired : List SchemaColumn) (column : SchemaColumn) :
    SchemaChangeSafety :=
  match desired.find? fun candidate => candidate.name == column.name with
  -- A removed column is not safe to evolve incrementally.
  | none => fullRebuildRequired
  | some desired =>
    if desired.dataType ≠ column.dataType then
      if desired.dataType.isKnown && column.dataType.isKnown && desired.dataType.isNumeric &&
          column.dataType.isNumeric &&
          decide (DataType.widen desired.dataType column.dataType = desired.dataType) then
        review
      else error
    else safe

open SchemaChangeSafety in
/-- What a desired column demands of the existing ones. -/
def addedColumnSafety (current : List SchemaColumn) (column : SchemaColumn) :
    SchemaChangeSafety :=
  if current.any fun existing => existing.name == column.name then safe
  else if column.nullability = .notNull then review
  else safe

/-- Classify a desired schema against a currently materialised schema. -/
def classifySchemaChange (desired current : List SchemaColumn) : SchemaChangeSafety :=
  (current.map (existingColumnSafety desired) ++ desired.map (addedColumnSafety current)).foldl
    SchemaChangeSafety.raise .safe

/-- An added column never demands a full rebuild; a removed one does, and one whose type is
not merely widened. -/
theorem classifySchemaChange_needsRebuild_iff {desired current : List SchemaColumn} :
    (classifySchemaChange desired current).needsRebuild = true ↔
      ∃ column ∈ current, (existingColumnSafety desired column).needsRebuild = true := by
  have hadded : ∀ column, (addedColumnSafety current column).needsRebuild = false := by
    intro column
    unfold addedColumnSafety
    split_ifs <;> rfl
  have hsafe : SchemaChangeSafety.safe.needsRebuild = false := rfl
  rw [classifySchemaChange, SchemaChangeSafety.needsRebuild_foldl_raise, hsafe]
  simp [hadded]

end PhloTransform.Core
