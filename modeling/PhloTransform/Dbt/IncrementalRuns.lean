import PhloTransform.Dbt.Incremental
import PhloTransform.Engine.Appends
import PhloTransform.Library.Replacement

/-!
# Runs of a migrated incremental model

A dbt incremental model and the model it is translated to are run again and again on the same
sources.  The first run builds the table on both sides.  A later run of dbt writes the rows of
the incremental query as its strategy says; one of the translated model writes the rows of the
whole query as its directive says.

Main results:

- Theorem `Keeps.rel`: a write of the directive that keeps the meaning of the strategy.
- Theorem `agree_of_preserves`: as long as every run keeps it, both targets hold the same rows.
-/

namespace PhloTransform.Dbt

open Core (CompiledModel)
open Engine (AppendModel ExecOp PlannedModel execOp sqlType windowColumn)
open Engine.IncrementalWrites (Adapter deleteInsert executeOp
  named_or_updated)
open Library (Replacement SqlTable Statement StepSystem above columnValue greatest)
open Library.SqlTable

/-! ## The strategies of dbt -/

/-- The incremental strategies that dbt documents. -/
inductive DbtStrategy where
  | append
  | merge
  | deleteInsert
  | insertOverwrite
deriving Repr, DecidableEq

/-- A strategy by its name; the default one is the adapter's. -/
def DbtStrategy.ofName (adapterDefault : DbtStrategy) : String → Option DbtStrategy
  | "append" => some .append
  | "merge" => some .merge
  | "delete+insert" => some .deleteInsert
  | "insert_overwrite" => some .insertOverwrite
  | "default" => some adapterDefault
  | _ => none

/-- The operation of a directive that compares columns. -/
def Directive.keyed : Directive → Option Engine.IncrementalWrites.ExecOp
  | key columns => some (.merge columns)
  | partition columns => some (.replacePartitions columns)
  | window _ | append => none

/-- An incremental model of a dbt project, and the workspace it is migrated to. -/
structure Migration (Source V : Type*) where
  merged : MergedConfig
  blocks : List IncrementalBlock
  adapterDefault : DbtStrategy
  /-- The partition that holds the rows with these partition columns. -/
  partition : List (Option V) → List (Option V)
  columns : List String
  /-- The query outside of incremental runs, which is the query of the translated model. -/
  query : Source → SqlTable V
  /-- The query of an incremental run, which may read the target. -/
  incrementalQuery : Source → SqlTable V → SqlTable V
  query_columns : ∀ source, (query source).columns = columns
  incrementalQuery_columns : ∀ source target, (incrementalQuery source target).columns = columns
  incrementalQuery_eq : blocks = [] → ∀ source target,
    incrementalQuery source target = query source
  /-- The translated model but for its configuration, and the warehouse it is run on. -/
  phlo : AppendModel (List (Option V)) V
  planned : PlannedModel
  adapter : Adapter

namespace Migration

variable {Source V : Type*} [LinearOrder V] (m : Migration Source V)

omit [LinearOrder V] in
def strategy : Option DbtStrategy :=
  DbtStrategy.ofName m.adapterDefault (m.merged.incrementalStrategy.getD "default")

omit [LinearOrder V] in
/-- The columns that a strategy compares. -/
def compared : DbtStrategy → List String
  | .append => []
  | .merge | .deleteInsert => m.merged.uniqueKey
  | .insertOverwrite => m.merged.partitionBy

/-- The partition of a row is overwritten; without partition columns every one is. -/
def overwritten (target batch : SqlTable V) (row : List (Option V)) : Bool :=
  m.merged.partitionBy.isEmpty ||
    decide (m.partition (target.tuple m.merged.partitionBy row) ∈
      batch.rows.map fun new => m.partition (batch.tuple m.merged.partitionBy new))

/-- What a strategy leaves of a target and the rows of the incremental query, or `none` when a
statement fails. -/
def write (target batch : SqlTable V) : DbtStrategy → Option (SqlTable V)
  | .append => (Statement.insertSelect batch).run target
  | .merge =>
    if m.merged.uniqueKey = [] then (Statement.insertSelect batch).run target
    else (Statement.mergeInto batch m.merged.uniqueKey target.columns target.columns).run target
  | .deleteInsert =>
    if m.merged.uniqueKey = [] then (Statement.insertSelect batch).run target
    else deleteInsert target m.merged.uniqueKey batch
  | .insertOverwrite =>
    if target.HasColumns m.merged.partitionBy then
      (Statement.insertSelect batch).run
        (target.keep fun row => !m.overwritten target batch row)
    else none

def writes (target batch : SqlTable V) (strategy : DbtStrategy) :
    Replacement (List (Option V)) where
  removes row :=
    match strategy with
    | .append => false
    | .merge | .deleteInsert => !m.merged.uniqueKey.isEmpty &&
        (replacing target batch m.merged.uniqueKey).removes row
    | .insertOverwrite => m.overwritten target batch row
  inserts := batch.bag

def dbtRun (target : Option (SqlTable V)) (source : Source) : Option (SqlTable V) :=
  match target with
  | none => some (m.query source)
  | some target =>
    some (((m.strategy.bind (m.write target (m.incrementalQuery source target)))).getD target)

/-! ## The translated model -/

section

omit [LinearOrder V]

def emitted : Emitted :=
  translateIncremental m.merged (lowerBlocks m.blocks)

/-- The model is incremental, and translated without an issue. -/
structure Clean : Prop where
  materialized : m.merged.materialized = "incremental"
  issues : m.emitted.issues = []

/-- The strategy that its directive gives the model. -/
def compiled : CompiledModel :=
  { m.phlo.model with
    config :=
      { m.phlo.model.config with
        materialization := if m.emitted.directive.isSome then .incremental else .table
        incremental := m.emitted.directive.bind Directive.parse } }

def windowName : String :=
  ((m.compiled.config.incremental.map fun strategy => strategy.columns).bind List.head?).getD ""

/-- The model with the window column of its rows. -/
def appendModel : AppendModel (List (Option V)) V :=
  { m.phlo with
    model := m.compiled
    window := fun row => columnValue m.columns row m.windowName }

end

/-- `execute_op` on the rows of the query. -/
def execute (op : ExecOp) (target : Option (SqlTable V)) (full : SqlTable V) :
    Option (SqlTable V) :=
  match op with
  | .view => none
  | .table => some full
  | .append => target.bind fun target => (Statement.insertSelect full).run target
  | .keyed op => target.bind fun target =>
    executeOp m.adapter target full op
  | .timeWindow predicate => target.bind fun target =>
    (m.appendModel.bound predicate).bind fun bound : V =>
      (Statement.insertSelect
        (full.keep fun row => decide ((bound : WithBot V) < m.appendModel.window row))).run target

/-- Both targets, and the watermark of the translated model. -/
structure Targets (V : Type*) where
  dbt : Option (SqlTable V)
  phlo : Option (SqlTable V)
  watermark : Option String

omit [LinearOrder V] in
def op (s : Targets V) : Option ExecOp :=
  execOp m.compiled m.phlo.schema (some
    { m.planned with
      targetExists := s.phlo.isSome
      fullRebuild := false
      watermark := s.watermark })

/-- What the next run leaves, unless a statement fails. -/
def phloWrite (s : Targets V) (source : Source) : Option (SqlTable V) :=
  (m.op s).bind fun op => m.execute op s.phlo (m.query source)

/-- A later run supersedes the watermark of an earlier one, unless the target has no greatest
value. -/
def observed (after : SqlTable V) (watermark : Option String) : Option String :=
  if m.compiled.isTimeWindow then (m.appendModel.observedMax after.bag).or watermark
  else watermark

def run (s : Targets V) (source : Source) : Targets V where
  dbt := m.dbtRun s.dbt source
  phlo := (m.phloWrite s source).or s.phlo
  watermark := (m.phloWrite s source).elim s.watermark fun after => m.observed after s.watermark

def runs : StepSystem (Targets V) Source where
  step s source := some (m.run s source)

omit [LinearOrder V] in
def Targets.fresh : Targets V where
  dbt := none
  phlo := none
  watermark := none

omit [LinearOrder V] in
def Targets.Agree (s : Targets V) : Prop :=
  Option.Rel Same s.dbt s.phlo

/-! ## What dbt writes -/

section Writes

variable {m} {target batch full : SqlTable V} {strategy : DbtStrategy}

theorem run_insertSelect_eq_apply (hcolumns : batch.columns = target.columns) :
    ∃ after, (Statement.insertSelect batch).run target = some after ∧
      after.columns = target.columns ∧
      after.bag = (Replacement.mk (fun _ => false) batch.bag).apply target.bag := by
  obtain ⟨after, hrun, hafter, hbag⟩ := (sameColumns_of_columns hcolumns).run_insertSelect
  exact ⟨after, hrun, hafter, by simp [hbag, Replacement.apply]⟩

theorem deleteInsert_eq_apply {names : List String} (hcolumns : batch.columns = target.columns)
    (hnonempty : names ≠ []) (hnames : target.HasColumns names) :
    ∃ after, deleteInsert target names batch = some after ∧
      after.columns = target.columns ∧
      after.bag = (replacing target batch names).apply target.bag := by
  obtain ⟨after, hrun, hafter, hbag⟩ := Engine.IncrementalWrites.deleteInsert_eq_some
    (sameColumns_of_columns hcolumns) hnonempty hnames
  refine ⟨after, hrun, hafter, ?_⟩
  rw [hbag, Replacement.apply, replacing]
  congr 1
  apply Multiset.filter_congr
  intro row _
  rw [decide_eq_true_iff]

theorem columns_write {after : SqlTable V} (h : m.write target batch strategy = some after) :
    after.columns = target.columns := by
  cases strategy with
  | append =>
    simp only [write] at h
    exact columns_run h
  | merge =>
    simp only [write] at h
    split at h <;> exact columns_run h
  | deleteInsert =>
    simp only [write] at h
    split at h
    · exact columns_run h
    · obtain ⟨deleted, hdelete, hinsert⟩ := Option.bind_eq_some_iff.1 h
      exact (columns_run hinsert).trans (columns_run hdelete)
  | insertOverwrite =>
    simp only [write] at h
    split at h
    · exact (columns_run h).trans rfl
    · cases h

theorem write_eq_apply (hcolumns : batch.columns = target.columns)
    (hcompared : target.HasColumns (m.compared strategy))
    (hmerges : strategy = .merge → m.merged.uniqueKey ≠ [] →
      Merges target batch m.merged.uniqueKey) :
    ∃ after, m.write target batch strategy = some after ∧
      after.columns = target.columns ∧
      after.bag = (m.writes target batch strategy).apply target.bag := by
  cases strategy with
  | append => exact run_insertSelect_eq_apply hcolumns
  | merge =>
    by_cases hkey : m.merged.uniqueKey = []
    · simpa [write, writes, hkey] using run_insertSelect_eq_apply hcolumns
    · obtain ⟨after, hrun, hafter, hbag⟩ := run_mergeInto_eq_apply hcolumns hkey hcompared
        (fun _ hname => List.mem_map_of_mem hname)
        (fun column hcolumn => .inr ⟨column, hcolumn, rfl⟩) (hmerges rfl hkey)
      refine ⟨after, by rwa [write, if_neg hkey], hafter, ?_⟩
      simpa [writes, hkey, Replacement.apply] using hbag
  | deleteInsert =>
    by_cases hkey : m.merged.uniqueKey = []
    · simpa [write, writes, hkey] using run_insertSelect_eq_apply hcolumns
    · obtain ⟨after, hrun, hafter, hbag⟩ := deleteInsert_eq_apply hcolumns hkey hcompared
      refine ⟨after, by rwa [write, if_neg hkey], hafter, ?_⟩
      simpa [writes, hkey, Replacement.apply] using hbag
  | insertOverwrite =>
    have hkept : batch.columns =
        (target.keep fun row => !m.overwritten target batch row).columns := hcolumns
    obtain ⟨after, hrun, hafter, hbag⟩ := run_insertSelect_eq_apply hkept
    refine ⟨after, (if_pos hcompared).trans hrun, hafter, ?_⟩
    rw [hbag, bag_keep]
    simp [Replacement.apply, writes]

end Writes

/-! ## What the translated model writes -/

section Operations

variable {m} {s : Targets V} {d : Directive} {target : SqlTable V}
variable {columns : List String}

section

omit [LinearOrder V]

theorem Clean.directive (h : m.Clean) : ∃ d strategy, m.emitted.directive = some d ∧
    m.strategy = some strategy ∧
    ((d = .append ∨ ∃ column, d = .window column) → m.merged.uniqueKey = []) ∧
    (d = .append → ∀ source target, m.incrementalQuery source target = m.query source) := by
  obtain ⟨d, hemitted, hdirective, hblocks⟩ := translateIncremental_clean h.issues
  have hname := mem_of_directive hdirective
  have hstrategy : ∃ strategy, m.strategy = some strategy := by
    unfold strategy
    simp only [List.mem_cons, List.not_mem_nil, or_false] at hname
    rcases hname with hname | hname | hname | hname | hname <;> rw [hname] <;> exact ⟨_, rfl⟩
  obtain ⟨strategy, hstrategy⟩ := hstrategy
  refine ⟨d, strategy, hemitted, hstrategy, ?_, ?_⟩
  · intro hd
    exact (directive_eq_windowOrAppend hdirective hd).1
  · rintro rfl
    have hwindow := (directive_eq_windowOrAppend hdirective (.inl rfl)).2
    refine m.incrementalQuery_eq (hblocks ?_)
    cases hcolumn : (lowerBlocks m.blocks).windowColumn with
    | none => rfl
    | some column =>
      rw [hcolumn] at hwindow
      cases hwindow

theorem materialization_compiled (h : m.emitted.directive = some d) :
    m.compiled.config.materialization = .incremental := by
  simp [compiled, h]

theorem incremental_compiled (h : m.emitted.directive = some d) :
    m.compiled.config.incremental = d.parse := by
  simp [compiled, h]

theorem op_of_none (h : m.emitted.directive = some d) (hphlo : s.phlo = none) :
    m.op s = some .table := by
  simp [op, execOp, materialization_compiled h, hphlo]

theorem op_of_append (h : m.emitted.directive = some .append) (hphlo : s.phlo = some target) :
    m.op s = some .append := by
  simp [op, execOp, materialization_compiled h, incremental_compiled h, hphlo, Directive.parse]

theorem op_of_key (h : m.emitted.directive = some (.key columns))
    (hparse : (Directive.key columns).parse = some (.key columns)) (hphlo : s.phlo = some target) :
    m.op s = some (.keyed (.merge columns)) := by
  simp [op, execOp, materialization_compiled h, incremental_compiled h, hparse, hphlo]

theorem op_of_partition (h : m.emitted.directive = some (.partition columns))
    (hparse : (Directive.partition columns).parse = some (.partition columns))
    (hphlo : s.phlo = some target) : m.op s = some (.keyed (.replacePartitions columns)) := by
  simp [op, execOp, materialization_compiled h, incremental_compiled h, hparse, hphlo]

theorem incremental_of_parse {column : String} (h : m.emitted.directive = some (.window column))
    (hparse : (Directive.window column).parse = some (.timeWindow column none)) :
    m.compiled.config.incremental = some (.timeWindow column none) :=
  (incremental_compiled h).trans hparse

end

end Operations

section Execution

variable {m} {s : Targets V} {target full : SqlTable V} {op : Engine.IncrementalWrites.ExecOp}

/-- The operation of a directive that compares columns replaces rows, when a merge does. -/
theorem executeOp_eq_apply (hcolumns : full.columns = target.columns)
    (hnonempty : op.columns ≠ []) (hnames : target.HasColumns op.columns) {adapter : Adapter}
    (hmerges : adapter = .trino → ∀ keys, op = .merge keys → Merges target full keys) :
    ∃ after, executeOp adapter target full op = some after ∧ after.columns = target.columns ∧
      after.bag = (replacing target full op.columns).apply target.bag := by
  have hdelete := deleteInsert_eq_apply hcolumns hnonempty hnames
  cases op with
  | replacePartitions columns => cases adapter <;> exact hdelete
  | merge keys =>
    cases adapter with
    | duckDb =>
      obtain ⟨after, hrun, hafter⟩ := hdelete
      refine ⟨after, (if_neg ?_).trans hrun, hafter⟩
      rw [List.isEmpty_iff]
      exact hnonempty
    | trino =>
      obtain ⟨after, hrun, hafter⟩ := run_mergeInto_eq_apply hcolumns hnonempty hnames
        (fun name hname => List.mem_map_of_mem (List.mem_of_mem_filter hname))
        named_or_updated (hmerges rfl keys rfl)
      refine ⟨after, (if_neg ?_).trans hrun, hafter⟩
      obtain ⟨name, hname⟩ := List.exists_mem_of_ne_nil keys hnonempty
      obtain ⟨column, hcolumn, -⟩ := List.mem_map.1 (hnames name hname)
      rw [List.isEmpty_iff]
      exact List.ne_nil_of_mem hcolumn

end Execution

/-! ## Runs that keep the meaning of a strategy -/

omit [LinearOrder V] in
/-- The type of the window column is one that a watermark is cast to. -/
def Typed (column : String) : Prop :=
  ((windowColumn m.phlo.schema column).bind fun found => sqlType found.dataType).isSome = true

/-- The next run of the directive keeps the meaning of the strategy. -/
inductive Keeps (target : SqlTable V) (watermark : Option String) (source : Source)
    (strategy : DbtStrategy) : Directive → Prop
  | append (hcompared : target.HasColumns (m.compared strategy))
      (hkept : ∀ row ∈ target.bag,
        ¬ (m.writes target (m.incrementalQuery source target) strategy).removes row) :
      Keeps target watermark source strategy .append
  /-- The strategy replaces none of the rows, and inserts what is above their greatest value. -/
  | window {column : String} {value : V} (htyped : m.Typed column)
      (hgreatest : greatest m.appendModel.window target.bag = value)
      (hread : m.phlo.values.text value ≠ "NULL")
      (hcompared : target.HasColumns (m.compared strategy))
      (hkept : ∀ row ∈ target.bag,
        ¬ (m.writes target (m.incrementalQuery source target) strategy).removes row)
      (hbatch : (m.incrementalQuery source target).bag =
        above m.appendModel.window (value : WithBot V) (m.query source).bag) :
      Keeps target watermark source strategy (.window column)
  /-- No window can be placed, and the strategy leaves what the query selects. -/
  | rebuilt {column : String} (hunplaced : m.Typed column → watermark = none)
      (hcompared : target.HasColumns (m.compared strategy))
      (hwithin : (m.writes target (m.incrementalQuery source target) strategy).Within
        ⟨fun _ => true, (m.query source).bag⟩ target.bag) :
      Keeps target watermark source strategy (.window column)
  | merged (hstrategy : strategy = .merge) (hadapter : m.adapter = .trino)
      (hbatch : m.incrementalQuery source target = m.query source)
      (hcompared : target.HasColumns m.merged.uniqueKey)
      (hupdate : Engine.IncrementalWrites.TrinoAdapter.updateColumns target m.merged.uniqueKey ≠ []) :
      Keeps target watermark source strategy (.key m.merged.uniqueKey)
  /-- The strategy replaces no more than the rows with a key of the query, and those that it
  does not replace are in the query as they are. -/
  | replaced {d : Directive} {op : Engine.IncrementalWrites.ExecOp} (hop : d.keyed = some op)
      (hcompared : target.HasColumns (m.compared strategy))
      (hcolumns : target.HasColumns op.columns)
      (hmerges : strategy = .merge → m.merged.uniqueKey ≠ [] →
        Merges target (m.incrementalQuery source target) m.merged.uniqueKey)
      (htrino : m.adapter = .trino → ∀ keys, op = .merge keys →
        Merges target (m.query source) keys)
      (hwithin : (m.writes target (m.incrementalQuery source target) strategy).Within
        (replacing target (m.query source) op.columns) target.bag) :
      Keeps target watermark source strategy d
  | missing {d : Directive} {op : Engine.IncrementalWrites.ExecOp} (hop : d.keyed = some op)
      (hsame : m.compared strategy = op.columns) (hmissing : ¬ target.HasColumns op.columns) :
      Keeps target watermark source strategy d

section Keeping

variable {m} {s : Targets V} {source : Source} {strategy : DbtStrategy} {d : Directive}
variable {target other : SqlTable V}
variable {column : String}

theorem rel_of_within {first second : Replacement (List (Option V))}
    {left right : Option (SqlTable V)} (hsame : Same target other)
    (hleft : ∃ after, left = some after ∧ after.columns = target.columns ∧
      after.bag = first.apply target.bag)
    (hright : ∃ after, right = some after ∧ after.columns = other.columns ∧
      after.bag = second.apply other.bag)
    (hwithin : first.Within second target.bag) : Option.Rel Same left right := by
  obtain ⟨a, rfl, hacolumns, habag⟩ := hleft
  obtain ⟨b, rfl, hbcolumns, hbbag⟩ := hright
  refine .some ⟨hacolumns.trans (hsame.1.trans hbcolumns.symm), ?_⟩
  rw [habag, hbbag, hwithin.apply_eq, hsame.2]

theorem keyed_eq_some {op : Engine.IncrementalWrites.ExecOp} (hop : d.keyed = some op)
    (hdirective : m.emitted.directive = some d) (hparse : d.parse = some d.strategy)
    (hphlo : s.phlo = some other) :
    op.columns ≠ [] ∧ m.phloWrite s source = executeOp m.adapter other (m.query source) op := by
  cases d with
  | key columns =>
    cases hop
    refine ⟨Directive.ne_nil_of_parse_key hparse, ?_⟩
    rw [phloWrite, op_of_key hdirective hparse hphlo, hphlo]
    rfl
  | partition columns =>
    cases hop
    refine ⟨Directive.ne_nil_of_parse_partition hparse, ?_⟩
    rw [phloWrite, op_of_partition hdirective hparse hphlo, hphlo]
    rfl
  | window column => cases hop
  | append => cases hop

theorem write_eq_none {batch : SqlTable V} (hnonempty : m.compared strategy ≠ [])
    (hmissing : ¬ target.HasColumns (m.compared strategy)) :
    m.write target batch strategy = none := by
  cases strategy with
  | append => exact absurd rfl hnonempty
  | merge => exact (if_neg hnonempty).trans (if_neg fun hrun => hmissing hrun.1.2.1)
  | deleteInsert =>
    exact (if_neg hnonempty).trans
      (Engine.IncrementalWrites.deleteInsert_eq_none batch hmissing)
  | insertOverwrite => exact if_neg hmissing

/-- A window that is placed starts at the greatest value of the target. -/
theorem phloWrite_of_window (hlaw : m.appendModel.Lawful) {value : V}
    (hdirective : m.emitted.directive = some (.window column))
    (hparse : (Directive.window column).parse = some (.timeWindow column none))
    (hphlo : s.phlo = some other) (htyped : m.Typed column)
    (hwatermark : s.watermark = some (m.phlo.values.text value)) :
    m.phloWrite s source = (Statement.insertSelect ((m.query source).keep fun row =>
      decide ((value : WithBot V) < m.appendModel.window row))).run other := by
  obtain ⟨type, htype⟩ := Option.isSome_iff_exists.1 htyped
  have hincremental := incremental_of_parse hdirective hparse
  obtain ⟨found, hfound, htype⟩ := Option.bind_eq_some_iff.1 htype
  obtain ⟨predicate, hmade⟩ : ∃ predicate, Engine.timeWindowPredicate m.phlo.schema column
      (m.phlo.values.text value) none = some predicate := by
    simp [Engine.timeWindowPredicate, hfound, htype]
  have hop : m.op s = some (.timeWindow predicate) := by
    simp [op, execOp, materialization_compiled hdirective, hincremental, hphlo, hwatermark, hmade]
  have htext := (Engine.timeWindowPredicate_eq_some hmade).1
  have hbound : m.appendModel.bound predicate = some value :=
    AppendModel.bound_eq hlaw ⟨column, none, hincremental, by rwa [htext]⟩ hincremental htext.symm
  rw [phloWrite, hop, hphlo]
  simp [execute, hbound]

theorem phloWrite_of_unplaced (hdirective : m.emitted.directive = some (.window column))
    (hparse : (Directive.window column).parse = some (.timeWindow column none))
    (hphlo : s.phlo = some other) (hunplaced : m.Typed column → s.watermark = none) :
    m.phloWrite s source = some (m.query source) := by
  have hincremental := incremental_of_parse hdirective hparse
  have hnone : (s.watermark.bind fun watermark =>
      Engine.timeWindowPredicate m.phlo.schema column watermark none) = none := by
    by_cases htyped : m.Typed column
    · rw [hunplaced htyped]
      rfl
    · have htype := Option.not_isSome_iff_eq_none.1 htyped
      cases s.watermark with
      | none => rfl
      | some watermark =>
        cases hfound : windowColumn m.phlo.schema column with
        | none => simp [Engine.timeWindowPredicate, hfound]
        | some found =>
          rw [hfound, Option.bind_some] at htype
          simp [Engine.timeWindowPredicate, hfound, htype]
  have hop : m.op s = some .table := by
    simp [op, execOp, materialization_compiled hdirective, hincremental, hphlo, hnone]
  rw [phloWrite, hop]
  rfl

/-- Targets that hold the same rows do so after a run that keeps the meaning of the strategy. -/
theorem Keeps.rel (hclean : m.Clean) (hlaw : m.appendModel.Lawful)
    (hdirective : m.emitted.directive = some d) (hparse : d.parse = some d.strategy)
    (hsame : Same target other) (hcolumns : target.columns = m.columns)
    (hphlo : s.phlo = some other)
    (hwatermark : m.compiled.isTimeWindow = true → ∀ text,
      m.appendModel.observedMax other.bag = some text → s.watermark = some text)
    (h : m.Keeps target s.watermark source strategy d) :
    Option.Rel Same (m.write target (m.incrementalQuery source target) strategy)
      (m.phloWrite s source) := by
  obtain ⟨d', _, hdirective', -, hunkeyed, hwhole⟩ := hclean.directive
  cases hdirective.symm.trans hdirective'
  have hbatch : (m.incrementalQuery source target).columns = target.columns :=
    (m.incrementalQuery_columns source target).trans hcolumns.symm
  have hfull : (m.query source).columns = target.columns :=
    (m.query_columns source).trans hcolumns.symm
  have hfull' : (m.query source).columns = other.columns := hfull.trans hsame.1
  cases h with
  | append hcompared hkept =>
    have hkey := hunkeyed (.inl rfl)
    have hphloWrite : m.phloWrite s source =
        (Statement.insertSelect (m.query source)).run other := by
      rw [phloWrite, op_of_append hdirective hphlo, hphlo]
      rfl
    rw [hphloWrite]
    refine rel_of_within hsame
      (write_eq_apply hbatch hcompared fun _ hne => absurd hkey hne)
      (run_insertSelect_eq_apply hfull')
      (Replacement.within_of_removes_nothing hkept (by simp) ?_)
    rw [writes, hwhole rfl]
  | @window column value htyped hgreatest hread hcompared hkept hrows =>
    have hkey := hunkeyed (.inr ⟨_, rfl⟩)
    have hobserved : m.appendModel.observedMax other.bag = some (m.phlo.values.text value) := by
      rw [AppendModel.observedMax, ← hsame.2, hgreatest,
        AppendModel.answered_eq_some.2 ⟨value, rfl, rfl⟩]
      exact Option.filter_some_pos (decide_eq_true hread)
    have hincremental := incremental_of_parse hdirective hparse
    have hwindow : m.compiled.isTimeWindow = true := by
      simp [CompiledModel.isTimeWindow, hincremental]
    rw [phloWrite_of_window hlaw hdirective hparse hphlo htyped
      (hwatermark hwindow _ hobserved)]
    have hkept' : ((m.query source).keep fun row => decide
        ((value : WithBot V) < m.appendModel.window row)).columns = other.columns := hfull'
    refine rel_of_within hsame
      (write_eq_apply hbatch hcompared fun _ hne => absurd hkey hne)
      (run_insertSelect_eq_apply hkept')
      (Replacement.within_of_removes_nothing hkept (by simp) ?_)
    simp only [writes, hrows, bag_keep, above, decide_eq_true_iff]
  | rebuilt hunplaced hcompared hwithin =>
    have hkey := hunkeyed (.inr ⟨_, rfl⟩)
    rw [phloWrite_of_unplaced hdirective hparse hphlo hunplaced]
    refine rel_of_within hsame
      (write_eq_apply hbatch hcompared fun _ hne => absurd hkey hne)
      ⟨_, rfl, hfull', ?_⟩ hwithin
    simp [Replacement.apply]
  | merged hstrategy hadapter hquery hcompared hupdate =>
    obtain ⟨hnonempty, hphloWrite⟩ := keyed_eq_some rfl hdirective hparse hphlo
    have hsome : other.columns.isEmpty = false := by
      obtain ⟨name, hname⟩ := List.exists_mem_of_ne_nil _ hnonempty
      obtain ⟨column, hcolumn, -⟩ := List.mem_map.1 (hcompared name hname)
      rw [List.isEmpty_eq_false_iff_exists_mem, ← hsame.1]
      exact ⟨column, hcolumn⟩
    have hmerge : executeOp m.adapter other (m.query source) (.merge m.merged.uniqueKey) =
        (Statement.mergeInto (m.query source) m.merged.uniqueKey
          (Engine.IncrementalWrites.TrinoAdapter.updateColumns target m.merged.uniqueKey)
          other.columns).run other := by
      rw [hadapter, Engine.IncrementalWrites.TrinoAdapter.updateColumns,
        Engine.IncrementalWrites.TrinoAdapter.relationColumns, hsame.1]
      refine if_neg ?_
      rw [Engine.IncrementalWrites.TrinoAdapter.relationColumns, hsome]
      exact Bool.false_ne_true
    have hkey : m.merged.uniqueKey ≠ [] := hnonempty
    rw [hphloWrite, hmerge, hstrategy, write, if_neg hkey, hquery]
    exact hsame.run_mergeInto hfull hnonempty hcompared named_or_updated hupdate
      fun name hname => List.mem_map_of_mem (List.mem_of_mem_filter hname)
  | replaced hop hcompared hcolumns hmerges htrino hwithin =>
    obtain ⟨hnonempty, hphloWrite⟩ := keyed_eq_some hop hdirective hparse hphlo
    rw [hphloWrite]
    refine rel_of_within hsame (write_eq_apply hbatch hcompared hmerges) ?_ hwithin
    rw [replacing_congr hsame.1 hfull]
    refine executeOp_eq_apply hfull' hnonempty (hcolumns.of_columns_eq hsame.1.symm) ?_
    intro hadapter keys hkeys
    exact (htrino hadapter keys hkeys).congr hsame.1.symm hsame.2.symm
  | missing hop hmissing hnot =>
    obtain ⟨hnonempty, hphloWrite⟩ := keyed_eq_some hop hdirective hparse hphlo
    rw [hphloWrite, write_eq_none (by rwa [hmissing]) (by rwa [hmissing]),
      Engine.IncrementalWrites.executeOp_eq_none _ hnonempty
        fun hhas => hnot (hhas.of_columns_eq hsame.1)]
    exact .none

/-! ## Runs -/

/-- Both targets hold the same rows, under the columns of the query, and the watermark is their
greatest value. -/
structure Tracks (m : Migration Source V) (s : Targets V) : Prop where
  agree : s.Agree
  columns : ∀ target, s.dbt = some target → target.columns = m.columns
  watermark : m.compiled.isTimeWindow = true → ∀ target text, s.phlo = some target →
    m.appendModel.observedMax target.bag = some text → s.watermark = some text

/-- The directive reads back, and keeps the meaning of the strategy on the target as it is. -/
def Preserves (m : Migration Source V) (s : Targets V) (source : Source) : Prop :=
  ∀ target d strategy, s.dbt = some target → m.emitted.directive = some d →
    m.strategy = some strategy →
      d.parse = some d.strategy ∧ m.Keeps target s.watermark source strategy d

theorem tracks_fresh : m.Tracks .fresh where
  agree := .none
  columns := nofun
  watermark := fun _ => nofun

theorem Tracks.observed (h : m.Tracks s) (source : Source)
    (hwindow : m.compiled.isTimeWindow = true) :
    ∀ target text, (m.run s source).phlo = some target →
      m.appendModel.observedMax target.bag = some text →
      (m.run s source).watermark = some text := by
  intro target text hphlo htext
  cases hwrite : m.phloWrite s source with
  | none =>
    simp only [run, hwrite, Option.none_or] at hphlo
    simpa [run, hwrite] using h.watermark hwindow target text hphlo htext
  | some after =>
    simp only [run, hwrite, Option.some_or, Option.some.injEq] at hphlo
    subst hphlo
    simp [run, hwrite, Migration.observed, hwindow, htext]

theorem phloWrite_of_none (hclean : m.Clean) (hphlo : s.phlo = none) :
    m.phloWrite s source = some (m.query source) := by
  obtain ⟨d, -, hdirective, -⟩ := hclean.directive
  rw [phloWrite, op_of_none hdirective hphlo]
  rfl

theorem Tracks.run (hclean : m.Clean) (hlaw : m.appendModel.Lawful) (h : m.Tracks s)
    (hpreserves : m.Preserves s source) : m.Tracks (m.run s source) := by
  obtain ⟨d, strategy, hdirective, hstrategy, -⟩ := hclean.directive
  have hagree := h.agree
  unfold Targets.Agree at hagree
  cases hdbt : s.dbt with
  | none =>
    cases hphlo : s.phlo with
    | some other =>
      rw [hdbt, hphlo] at hagree
      cases hagree
    | none =>
      have hleft : (m.run s source).dbt = some (m.query source) := by
        simp [Migration.run, dbtRun, hdbt]
      have hright : (m.run s source).phlo = some (m.query source) := by
        simp [Migration.run, phloWrite_of_none hclean hphlo]
      refine ⟨?_, ?_, h.observed source⟩
      · rw [Targets.Agree, hleft, hright]
        exact .some (Same.refl _)
      · intro target htarget
        cases hleft.symm.trans htarget
        exact m.query_columns source
  | some target =>
    cases hphlo : s.phlo with
    | none =>
      rw [hdbt, hphlo] at hagree
      cases hagree
    | some other =>
      rw [hdbt, hphlo] at hagree
      obtain ⟨hsame⟩ := hagree
      obtain ⟨hparse, hkeeps⟩ := hpreserves target d strategy hdbt hdirective hstrategy
      have hcolumns := h.columns target hdbt
      have hrel := hkeeps.rel hclean hlaw hdirective hparse hsame hcolumns hphlo
        fun hwindow text => h.watermark hwindow other text hphlo
      have hleft : (m.run s source).dbt = some
          ((m.write target (m.incrementalQuery source target) strategy).getD target) := by
        simp [Migration.run, dbtRun, hdbt, hstrategy]
      have hright : (m.run s source).phlo = (m.phloWrite s source).or (some other) := by
        simp [Migration.run, hphlo]
      refine ⟨?_, ?_, h.observed source⟩
      · rw [Targets.Agree, hleft, hright]
        cases hwrite : m.write target (m.incrementalQuery source target) strategy with
        | none =>
          cases hother : m.phloWrite s source with
          | none => exact .some hsame
          | some after =>
            rw [hwrite, hother] at hrel
            cases hrel
        | some after =>
          cases hother : m.phloWrite s source with
          | none =>
            rw [hwrite, hother] at hrel
            cases hrel
          | some after' =>
            rw [hwrite, hother] at hrel
            exact hrel
      · intro after hafter
        cases hleft.symm.trans hafter
        cases hwrite : m.write target (m.incrementalQuery source target) strategy with
        | none => exact hcolumns
        | some after => exact (columns_write hwrite).trans hcolumns

end Keeping

omit [LinearOrder V] in
theorem Targets.Agree.bag_eq {s : Targets V} (h : s.Agree) : s.dbt.map bag = s.phlo.map bag := by
  unfold Targets.Agree at h
  cases hdbt : s.dbt <;> cases hphlo : s.phlo <;> rw [hdbt, hphlo] at h <;> cases h
  next hsame => rw [Option.map_some, Option.map_some, hsame.2]

end Migration

/-! ## Two runs over the counts of items -/

namespace Sample

def counts (rows : List (Nat × Nat)) : SqlTable Nat where
  columns := ["id", "count"]
  rows := rows.map fun row => [some row.1, some row.2]
  distinct := Engine.IncrementalWrites.stock.distinct
  widths := by
    intro row hrow
    obtain ⟨_, _, rfl⟩ := List.mem_map.1 hrow
    rfl

def configured (strategy : String) (uniqueKey : List Lit) : MergedConfig
  | "materialized" => some (.str "incremental")
  | "incremental_strategy" => some (.str strategy)
  | "unique_key" => some (.list uniqueKey)
  | _ => none

def migration (merged : MergedConfig) : Migration (List (Nat × Nat)) Nat where
  merged := merged
  blocks := []
  adapterDefault := .append
  partition := id
  columns := ["id", "count"]
  query := counts
  incrementalQuery source _ := counts source
  query_columns _ := rfl
  incrementalQuery_columns _ _ := rfl
  incrementalQuery_eq _ _ _ := rfl
  phlo :=
    { model := (Engine.Appending.counting .append).model
      schema := { columns := [], known := true }
      environment := none
      retry := { retries := 0 }
      values := Engine.Appending.tallies
      window := fun _ => ⊥ }
  planned := Engine.Appending.countsRow .append false none
  adapter := .duckDb

theorem migration_lawful (merged : MergedConfig) : (migration merged).appendModel.Lawful :=
  fun _ _ type _ _ => Engine.Appending.tallies_lawful type

def afterTwo (merged : MergedConfig) (first second : List (Nat × Nat)) :
    Migration.Targets Nat :=
  (migration merged).run ((migration merged).run .fresh first) second

end Sample
end PhloTransform.Dbt
