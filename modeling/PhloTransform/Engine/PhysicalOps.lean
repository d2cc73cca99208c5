import PhloTransform.Core.Schema
import PhloTransform.Engine.IncrementalWrites
import PhloTransform.Engine.Plan

/-!
# Physical operations

How the runner writes a planned model: as a view, by a full build, or by what its incremental
strategy asks for on an existing target; and when it tries a failed write again.

Main results:

- Theorem `execOp_cases`: which operation is chosen.
-/

namespace PhloTransform.Engine

open Core (CompiledModel DataType IncrementalStrategy ModelSchema SchemaColumn)
open Library (foldCase)

variable {schema : ModelSchema} {model : CompiledModel} {planned : PlannedModel}
variable {predicate : TimeWindowPredicate}

/-! ## The physical operation -/

def sqlType : DataType → Option String
  | .boolean => some "boolean"
  | .tinyInt => some "tinyint"
  | .smallInt => some "smallint"
  | .integer => some "integer"
  | .bigInt => some "bigint"
  | .real => some "real"
  | .double => some "double"
  | .decimal => some "decimal"
  | .varchar => some "varchar"
  | .date => some "date"
  | .time => some "time"
  | .timestamp => some "timestamp"
  | .timestampTz => some "timestamp with time zone"
  | .varbinary | .array _ | .map _ _ | .row _ | .unknown => none

/-- The column is above the cast watermark, backed off by an overlap. -/
structure TimeWindowPredicate where
  column : String
  watermark : String
  sqlType : String
  overlapSeconds : Option Nat
deriving Repr, DecidableEq

def windowColumn (schema : ModelSchema) (column : String) : Option SchemaColumn :=
  schema.columns.find? fun found => found.name == column

/-- `time_window_predicate`; only timestamps are backed off. -/
def timeWindowPredicate (schema : ModelSchema) (column watermark : String)
    (overlapSeconds : Option Nat) : Option TimeWindowPredicate :=
  (windowColumn schema column).bind fun found =>
    (sqlType found.dataType).map fun type =>
      { column
        watermark
        sqlType := type
        overlapSeconds :=
          if found.dataType = .timestamp ∨ found.dataType = .timestampTz then
            overlapSeconds.filter fun seconds => decide (0 < seconds)
          else none }

/-- The physical operation chosen for a model. -/
inductive ExecOp where
  | view
  | table
  | append
  | keyed (op : IncrementalWrites.ExecOp)
  | timeWindow (predicate : TimeWindowPredicate)
deriving Repr, DecidableEq

/-- `exec_op`; ephemeral models are never planned. -/
def execOp (model : CompiledModel) (schema : ModelSchema) (info : Option PlannedModel) :
    Option ExecOp :=
  match model.config.materialization with
  | .view => some .view
  | .table => some .table
  | .ephemeral => none
  | .incremental =>
    if (info.map fun planned => planned.fullRebuild || !planned.targetExists).getD true then
      some .table
    else
      match model.config.incremental with
      | some .append => some .append
      | some (.key columns) => some (.keyed (.merge columns))
      | some (.partition columns) => some (.keyed (.replacePartitions columns))
      | some (.timeWindow column overlapSeconds) =>
        match (info.bind PlannedModel.watermark).bind fun watermark =>
            timeWindowPredicate schema column watermark overlapSeconds with
        | some predicate => some (.timeWindow predicate)
        -- Without a usable watermark or type, rebuild safely.
        | none => some .table
      | none => some .table

theorem timeWindowPredicate_eq_some {column watermark : String} {overlapSeconds : Option Nat}
    (h : timeWindowPredicate schema column watermark overlapSeconds = some predicate) :
    predicate.watermark = watermark ∧
      (windowColumn schema column).bind (fun found => sqlType found.dataType) =
        some predicate.sqlType ∧ (overlapSeconds = none → predicate.overlapSeconds = none) := by
  unfold timeWindowPredicate at h
  cases hfound : windowColumn schema column with
  | none =>
    rw [hfound] at h
    cases h
  | some found =>
    rw [hfound, Option.bind_some] at h
    cases htype : sqlType found.dataType with
    | none =>
      rw [htype] at h
      cases h
    | some type =>
      rw [htype, Option.map_some, Option.some.injEq] at h
      subst h
      refine ⟨rfl, htype, ?_⟩
      intro hnone
      simp [hnone]

/-- The operation that a strategy asks for on an existing target. -/
def StrategyAsks (schema : ModelSchema) (watermark : Option String) (op : ExecOp) :
    IncrementalStrategy → Prop
  | .append => op = .append
  | .key columns => op = .keyed (.merge columns)
  | .partition columns => op = .keyed (.replacePartitions columns)
  | .timeWindow column overlapSeconds => ∃ text predicate, watermark = some text ∧
      timeWindowPredicate schema column text overlapSeconds = some predicate ∧
        op = .timeWindow predicate

/-- A view, a full build, or what the strategy asks for on an existing target. -/
theorem execOp_cases {op : ExecOp} (h : execOp model schema (some planned) = some op) :
    op = .view ∨ op = .table ∨ planned.targetExists = true ∧
      ∃ strategy, model.config.incremental = some strategy ∧
        StrategyAsks schema planned.watermark op strategy := by
  unfold execOp at h
  cases hmaterialization : model.config.materialization <;> rw [hmaterialization] at h
  case view => exact .inl (Option.some.inj h).symm
  case table => exact .inr (.inl (Option.some.inj h).symm)
  case ephemeral => cases h
  case incremental =>
    simp only [Option.map_some, Option.getD_some, Option.bind_some] at h
    split at h
    · exact .inr (.inl (Option.some.inj h).symm)
    · next hrebuild =>
        simp only [Bool.or_eq_true, Bool.not_eq_true', not_or, Bool.not_eq_false] at hrebuild
        cases hstrategy : model.config.incremental with
        | none =>
          rw [hstrategy] at h
          exact .inr (.inl (Option.some.inj h).symm)
        | some strategy =>
          rw [hstrategy] at h
          cases strategy with
          | append => exact .inr (.inr ⟨hrebuild.2, _, rfl, (Option.some.inj h).symm⟩)
          | key columns => exact .inr (.inr ⟨hrebuild.2, _, rfl, (Option.some.inj h).symm⟩)
          | partition columns =>
            exact .inr (.inr ⟨hrebuild.2, _, rfl, (Option.some.inj h).symm⟩)
          | timeWindow column overlapSeconds =>
            simp only at h
            split at h
            · next predicate hfound =>
                obtain ⟨text, htext, hmade⟩ := Option.bind_eq_some_iff.1 hfound
                exact .inr (.inr ⟨hrebuild.2, _, rfl, text, predicate, htext, hmade,
                  (Option.some.inj h).symm⟩)
            · exact .inr (.inl (Option.some.inj h).symm)

/-- A window is written from the planned watermark over an existing target. -/
theorem execOp_eq_timeWindow (h : execOp model schema (some planned) = some (.timeWindow predicate))
    :
    planned.targetExists = true ∧ planned.watermark = some predicate.watermark ∧
      ∃ column overlapSeconds, model.config.incremental =
          some (.timeWindow column overlapSeconds) ∧
        timeWindowPredicate schema column predicate.watermark overlapSeconds = some predicate := by
  rcases execOp_cases h with hview | htable | ⟨hexists, strategy, hstrategy, hasks⟩
  · cases hview
  · cases htable
  · cases strategy with
    | append => cases hasks
    | key columns => cases hasks
    | partition columns => cases hasks
    | timeWindow column overlapSeconds =>
      obtain ⟨text, made, htext, hmade, hsame⟩ := hasks
      cases hsame
      have hwatermark := (timeWindowPredicate_eq_some hmade).1
      rw [hwatermark]
      exact ⟨hexists, htext, column, overlapSeconds, hstrategy, hmade⟩

theorem execOp_eq_append (h : execOp model schema (some planned) = some .append) :
    model.config.incremental = some .append := by
  rcases execOp_cases h with hview | htable | ⟨-, strategy, hstrategy, hasks⟩
  · cases hview
  · cases htable
  · cases strategy with
    | append => exact hstrategy
    | key columns => cases hasks
    | partition columns => cases hasks
    | timeWindow column overlapSeconds =>
      obtain ⟨text, predicate, -, -, hsame⟩ := hasks
      cases hsame

/-! ## Attempts -/

/-- What an adapter reports about a failed statement. -/
structure AdapterError where
  code : String
  retryable : Bool
deriving Repr, DecidableEq

/-- Why an attempt failed. -/
structure Failure where
  category : FailureCategory
  retryable : Bool
deriving Repr, DecidableEq

/-- Adapter codes that mean that the SQL itself is wrong. -/
def sqlCodes : List String :=
  ["SYNTAX_ERROR", "PARSE_ERROR", "COLUMN_NOT_FOUND", "TABLE_NOT_FOUND", "SCHEMA_NOT_FOUND",
    "CATALOG_NOT_FOUND", "FUNCTION_NOT_FOUND", "TYPE_MISMATCH", "TYPE_NOT_FOUND",
    "AMBIGUOUS_NAME", "DUPLICATE_COLUMN_NAME", "DIVISION_BY_ZERO", "INVALID_FUNCTION_ARGUMENT"]

/-- `classify_adapter_error`. -/
def classifyAdapterError (error : AdapterError) : Failure :=
  if sqlCodes.any fun code => foldCase error.code == foldCase code then
    { category := .sql, retryable := false }
  else { category := .adapter, retryable := error.retryable }

/-- `timeout_failure`. -/
def timeoutFailure : Failure where
  category := .timeout
  retryable := false

/-- Centralised retry policy; the delays are left out. -/
structure RetryPolicy where
  retries : Nat
deriving Repr, DecidableEq

/-- Total attempts a node may get; the sum saturates. -/
def RetryPolicy.maxAttempts (retry : RetryPolicy) : Nat :=
  min (retry.retries + 1) (2 ^ 32 - 1)

/-- Only transient adapter failures are retried. -/
def RetryPolicy.shouldRetry (retry : RetryPolicy) (failure : Failure) (attempt : Nat) : Bool :=
  failure.retryable && decide (attempt < retry.maxAttempts) &&
    decide (failure.category = .adapter)

/-- How an attempt is answered. -/
inductive AttemptAnswer where
  | ok
  | error (reported : AdapterError)
  | timeout
deriving Repr, DecidableEq

/-- The failure of an attempt that is not answered with success. -/
def AttemptAnswer.failure : AttemptAnswer → Option Failure
  | ok => none
  | error reported => some (classifyAdapterError reported)
  | timeout => some timeoutFailure

/-- What the warehouse did by the time an attempt is answered. -/
inductive AttemptEffect where
  | nothing
  /-- A full build has dropped the target and not created it again. -/
  | dropped
  | applied
deriving Repr, DecidableEq

end PhloTransform.Engine
