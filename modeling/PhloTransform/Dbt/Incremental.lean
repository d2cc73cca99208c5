import PhloTransform.Core.Compiled

/-!
# The incremental intent of a dbt model

A dbt model with the materialisation `incremental` may have a strategy, a unique key and
partition columns in its configuration, and `is_incremental()` blocks in its text.  The
translation turns them into one `@incremental` directive, or reports an issue.

Main results:

- Theorem `lowerBlocks_clean`: the blocks of a model without an issue.
- Theorem `translateIncremental_clean`: a model that is translated without an issue has a
  directive for its strategy, and the window of one of its blocks unless it has none.
-/

namespace PhloTransform.Dbt

open Core (IncrementalStrategy)

variable {blocks : List IncrementalBlock}
variable {lowered : Lowered}

/-! ## Values and segments -/

/-- A literal of a configuration. -/
inductive Lit where
  | str (value : String)
  | int (value : Int)
  | float (text : String)
  | bool (value : Bool)
  | nothing
  | list (items : List Lit)
  | dict (items : List (String × Lit))
  | ident (value : String)
  | jinja (text : String)

namespace Lit

/-- The value as a string when it is one, or a bare identifier. -/
def asStr : Lit → Option String
  | str value | ident value => some value
  | int _ | float _ | bool _ | nothing | list _ | dict _ | jinja _ => none

/-- A list of strings, when every element is a string or an identifier. -/
def asStrList : Lit → Option (List String)
  | str value | ident value => some [value]
  | list items => items.mapM asStr
  | int _ | float _ | bool _ | nothing | dict _ | jinja _ => none

def field (name : String) : Lit → Option Lit
  | dict items => (items.find? fun item => item.1 == name).map Prod.snd
  | _ => none

end Lit

/-- A segment of the text of a model. -/
inductive Segment where
  | text (part : String)
  | expr (inner : String)
  | stmt (inner : String)
  | comment (text : String)

structure MigrationIssue where
  code : String
  message : String
deriving Repr, DecidableEq

def MigrationIssue.incrementalPattern (message : String) : MigrationIssue where
  code := "DBT006"
  message := message

/-! ## `is_incremental()` blocks -/

/-- The text of a block whose only expressions are `this`. -/
def bodyText : List Segment → Option (List Char)
  | [] => some []
  | .text part :: rest => (bodyText rest).map fun text => part.toList ++ text
  | .expr inner :: rest => if Core.trim inner.toList = "this".toList then bodyText rest else none
  | .stmt _ :: _ | .comment _ :: _ => none

/-- What follows the first `max(`, in any letter case. -/
def afterMax : List Char → Option (List Char)
  | [] => none
  | c :: cs =>
    if "max(".toList.isPrefixOf ((c :: cs).map Char.toLower) then some (cs.drop 3)
    else afterMax cs

/-- `watermark_column`: the last part of the name in the first `max(`. -/
def watermarkColumn (body : List Segment) : Option String := do
  let rest ← afterMax (← bodyText body)
  let column := rest.takeWhile fun c => c.isAlphanum || c == '_' || c == '.'
  if column = [] then none
  else (column.splitOn '.').getLast?.map String.ofList

/-- `{% if is_incremental() %} body [{% else %} alternative] {% endif %}`. -/
structure IncrementalBlock where
  body : List Segment
  hasElse : Bool

/-- What lowering the text of a model found out about it. -/
structure Lowered where
  issues : List MigrationIssue
  windowColumn : Option String
  incrementalReduced : Bool

def Lowered.start : Lowered where
  issues := []
  windowColumn := none
  incrementalReduced := false

/-- `handle_incremental_block`. -/
def handleIncrementalBlock (lowered : Lowered) (block : IncrementalBlock) : Lowered :=
  if block.hasElse then
    { lowered with
      issues := lowered.issues ++ [.incrementalPattern
        "is_incremental() else-branch kept; model degrades to full-refresh semantics"]
      incrementalReduced := true }
  else
    match watermarkColumn block.body with
    | some column => { lowered with windowColumn := some column }
    | none =>
      { lowered with
        issues := lowered.issues ++ [.incrementalPattern
          "unrecognised is_incremental() body dropped; model degrades to full-refresh semantics"]
        incrementalReduced := true }

/-- The blocks of a model, in their order. -/
def lowerBlocks (blocks : List IncrementalBlock) : Lowered :=
  blocks.foldl handleIncrementalBlock .start

/-! ## The directive -/

/-- The configuration of a model: its directory, its properties and its text, merged. -/
abbrev MergedConfig := String → Option Lit

def MergedConfig.materialized (merged : MergedConfig) : String :=
  (((merged "materialized").bind Lit.asStr).getD "view").toLower

def MergedConfig.uniqueKey (merged : MergedConfig) : List String :=
  ((merged "unique_key").bind Lit.asStrList).getD []

def MergedConfig.incrementalStrategy (merged : MergedConfig) : Option String :=
  ((merged "incremental_strategy").bind Lit.asStr).map String.toLower

/-- The columns, or the field of a dictionary. -/
def MergedConfig.partitionBy (merged : MergedConfig) : List String :=
  match merged "partition_by" with
  | none => []
  | some (.dict items) => (((Lit.dict items).field "field").bind Lit.asStrList).getD []
  | some other => other.asStrList.getD []

/-- An `@incremental` directive as it is written. -/
inductive Directive where
  | key (columns : List String)
  | partition (columns : List String)
  | window (column : String)
  | append
deriving Repr, DecidableEq

namespace Directive

variable {columns : List String}

def strategy : Directive → IncrementalStrategy
  | key columns => .key columns
  | partition columns => .partition columns
  | window column => .timeWindow column none
  | append => .append

/-- `split_columns`: names separated by commas and whitespace. -/
def splitColumns (value : String) : List String :=
  ((value.toList.splitOnP fun c => c == ',' || Core.isWhitespace c).filter
    fun part => !part.isEmpty).map String.ofList

/-- `parse_incremental`: the strategy that is read, unless no column is. -/
def parse : Directive → Option IncrementalStrategy
  | key columns =>
    let columns := splitColumns (",".intercalate columns)
    if columns.isEmpty then none else some (.key columns)
  | partition columns =>
    let columns := splitColumns (",".intercalate columns)
    if columns.isEmpty then none else some (.partition columns)
  | window column => (splitColumns column).head?.map fun column => .timeWindow column none
  | append => some .append

theorem ne_nil_of_parse_key (h : (key columns).parse = some (.key columns)) : columns ≠ [] := by
  rintro rfl
  simp [parse, splitColumns] at h

theorem ne_nil_of_parse_partition (h : (partition columns).parse = some (.partition columns)) :
    columns ≠ [] := by
  rintro rfl
  simp [parse, splitColumns] at h

end Directive

/-- A window on the watermark column of a block, or an append. -/
def windowOrAppend : Option String → Directive
  | some column => .window column
  | none => .append

/-- The directive of a strategy, with or without a key and partition columns. -/
def directive (strategy : String) (uniqueKey partitionBy : List String)
    (windowColumn : Option String) : Option Directive :=
  if strategy ∈ ["merge", "delete+insert", "default", "append"] ∧ uniqueKey ≠ [] then
    some (.key uniqueKey)
  else if strategy = "insert_overwrite" ∧ partitionBy ≠ [] then
    some (.partition partitionBy)
  else if strategy ∈ ["append", "insert_overwrite"] ∧ uniqueKey = [] ∧ partitionBy = [] then
    some (windowOrAppend windowColumn)
  else if strategy = "default" ∧ uniqueKey = [] then
    some (windowOrAppend windowColumn)
  else none

/-- What is emitted for an incremental model: a directive, or else a table. -/
structure Emitted where
  directive : Option Directive
  issues : List MigrationIssue

/-- The incremental intent of `translate_model`. -/
def translateIncremental (merged : MergedConfig) (lowered : Lowered) : Emitted :=
  let strategy := merged.incrementalStrategy.getD "default"
  if lowered.incrementalReduced then
    { directive := if merged.uniqueKey = [] then none else some (.key merged.uniqueKey)
      issues := lowered.issues }
  else
    match directive strategy merged.uniqueKey merged.partitionBy lowered.windowColumn with
    | some emitted => { directive := some emitted, issues := lowered.issues }
    | none =>
      { directive := none
        issues := lowered.issues ++ [.incrementalPattern
          ("incremental strategy `" ++ strategy ++ "` has no native equivalent")] }

/-! ## Models without an issue -/

/-- A body that is dropped or reduced leaves an issue, and any other block a window. -/
structure Lowered.Accounts (lowered : Lowered) (blocks : List IncrementalBlock) : Prop where
  reduced : lowered.incrementalReduced = true → lowered.issues ≠ []
  windowed : lowered.issues = [] → lowered.windowColumn = none → blocks = []

theorem Lowered.Accounts.handle (h : lowered.Accounts blocks) (block : IncrementalBlock) :
    (handleIncrementalBlock lowered block).Accounts (blocks ++ [block]) := by
  unfold handleIncrementalBlock
  split
  · exact ⟨by simp, by simp⟩
  · split
    · exact ⟨h.reduced, by simp⟩
    · exact ⟨by simp, by simp⟩

theorem accounts_foldl {before : List IncrementalBlock} (h : lowered.Accounts before)
    (blocks : List IncrementalBlock) :
    (blocks.foldl handleIncrementalBlock lowered).Accounts (before ++ blocks) := by
  induction blocks generalizing lowered before with
  | nil => rwa [List.append_nil]
  | cons block blocks ih =>
    have hnext := ih (h.handle block)
    rwa [List.append_assoc] at hnext

/-- Blocks without an issue are not reduced, and leave a window unless there are none. -/
theorem lowerBlocks_clean (h : (lowerBlocks blocks).issues = []) :
    (lowerBlocks blocks).incrementalReduced = false ∧
      ((lowerBlocks blocks).windowColumn = none → blocks = []) := by
  have haccounts : (lowerBlocks blocks).Accounts ([] ++ blocks) :=
    accounts_foldl ⟨by simp [Lowered.start], fun _ _ => rfl⟩ blocks
  constructor
  · by_contra hreduced
    exact haccounts.reduced (by simpa using hreduced) h
  · exact haccounts.windowed h

/-- A model that is translated without an issue has the directive of its strategy; without a
window it has no block. -/
theorem translateIncremental_clean {merged : MergedConfig}
    (h : (translateIncremental merged (lowerBlocks blocks)).issues = []) :
    ∃ emitted, (translateIncremental merged (lowerBlocks blocks)).directive = some emitted ∧
      directive (merged.incrementalStrategy.getD "default") merged.uniqueKey
        merged.partitionBy (lowerBlocks blocks).windowColumn = some emitted ∧
      ((lowerBlocks blocks).windowColumn = none → blocks = []) := by
  unfold translateIncremental at h ⊢
  simp only at h ⊢
  split at h
  · next hreduced =>
      rw [(lowerBlocks_clean h).1] at hreduced
      cases hreduced
  · next hreduced =>
      rw [if_neg hreduced]
      split at h
      · next emitted hemitted => exact ⟨emitted, rfl, hemitted, (lowerBlocks_clean h).2⟩
      · simp at h

section Directive

variable {strategy : String} {uniqueKey partitionBy : List String} {window : Option String}
variable {emitted : Directive}

theorem directive_eq_windowOrAppend
    (h : directive strategy uniqueKey partitionBy window = some emitted)
    (hemitted : emitted = .append ∨ ∃ column, emitted = .window column) :
    uniqueKey = [] ∧ emitted = windowOrAppend window := by
  unfold directive at h
  split at h
  · rcases hemitted with rfl | ⟨column, rfl⟩ <;> cases h
  · split at h
    · rcases hemitted with rfl | ⟨column, rfl⟩ <;> cases h
    · split at h
      · next hguard => exact ⟨hguard.2.1, (Option.some.inj h).symm⟩
      · split at h
        · next hguard => exact ⟨hguard.2, (Option.some.inj h).symm⟩
        · cases h

theorem mem_of_directive (h : directive strategy uniqueKey partitionBy window = some emitted) :
    strategy ∈ ["merge", "delete+insert", "default", "append", "insert_overwrite"] := by
  unfold directive at h
  split at h
  · next hguard =>
      have hname := hguard.1
      simp only [List.mem_cons, List.not_mem_nil, or_false] at hname ⊢
      tauto
  · split at h
    · next hguard => simp [hguard.1]
    · split at h
      · next hguard =>
          have hname := hguard.1
          simp only [List.mem_cons, List.not_mem_nil, or_false] at hname ⊢
          tauto
      · split at h
        · next hguard => simp [hguard.1]
        · cases h

end Directive

end PhloTransform.Dbt
