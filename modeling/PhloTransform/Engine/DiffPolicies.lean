import PhloTransform.Core.Assertions
import PhloTransform.Core.Schema
import PhloTransform.Engine.BranchDiff
import PhloTransform.Engine.KeyedDiff
import PhloTransform.Library.Slots

/-!
# Diff policies

A deep branch comparison diffs the values of each changed model that declares a key or a policy,
and judges the counts by the policy.  A threshold that no keyed count measures fails; which
columns a count compares comes from the schema that compilation inferred.

Main results:

- Theorem `ValueView.passes_iff`: when a diff passes a threshold on modified rows.
- Theorem `ValueView.thresholdsMeasured_iff`: when no threshold passes on columns that were not
  compared.
-/

namespace PhloTransform.Engine

open Core (Assertion CompiledModel IncrementalStrategy ModelSchema Relation)
open Library (SqlTable eq_ok_of_toOption except_bind_eq_ok exists_mapM_eq_ok exists_mem_of_mapM
  mapM_eq_ok)

/-! ## Requests and reports -/

/-- How a diff compares data. -/
inductive DiffStrategy where
  | keyed
  | aggregate
  | full
  | sampled
  | partition (columns : List String)
deriving Repr, DecidableEq

def DiffStrategy.isPartition : DiffStrategy → Bool
  | partition _ => true
  | _ => false

/-- Declarative diff policy, with fractions of a type `F`. -/
structure DiffPolicy (F : Type) where
  maxAddedRows : Option Int := none
  maxRemovedRows : Option Int := none
  maxModifiedRows : Option Int := none
  maxChangedFraction : Option F := none
  requireKeyedDiff : Bool := false
  requireFullDiff : Bool := false
  tolerances : String → Option (ColumnTolerance F) := fun _ => none

/-- A single policy evaluation result. -/
structure PolicyResult where
  policy : String
  passed : Bool
  detail : String
deriving Repr, DecidableEq

/-- A request to diff two relations, with what the value queries read. -/
structure ValueDiffRequest (F : Type) extends DiffRequest where
  keyColumns : List String
  columns : List String
  strategy : DiffStrategy
  policy : DiffPolicy F

/-- Row-level summary. -/
structure RowSummary where
  baseRows : Int
  candidateRows : Int
  delta : Int
  added : Int
  removed : Int
  modified : Int
  unchanged : Int
deriving Repr, DecidableEq

/-- A diff report with its counts and its policy results. -/
structure ValueDiffReport extends DiffReport where
  strategy : DiffStrategy
  coverage : String
  keyColumns : List String
  rowSummary : RowSummary
  columnChanges : List (String × Nat)
  policyResults : List PolicyResult
deriving Repr, DecidableEq

/-- What a diff reads of a compiled model, beside its incremental strategy. -/
structure DiffedModel (F : Type) where
  assertions : List Assertion
  schema : ModelSchema
  diff : Option (DiffPolicy F)

/-- The arithmetic of changed fractions: `changed as f64 / base as f64`. -/
structure Fractions (F : Type) where
  within : Int → Int → F → Bool
  text : Int → Int → F → String

/-- What the warehouse and the compilation answer to value diffs. -/
structure ValueView (V F : Type) where
  tables : Relation → Option (SqlTable V)
  arithmetic : Arithmetic V F
  fractions : Fractions F
  models : CompiledModel → DiffedModel F
  partitions : DiffRequest → List String → Except EngineError String

/-! ## One value diff -/

/-- The rows that one comparison counted. -/
structure RowComparison where
  counts : KeyedCounts
  columnChanges : List (String × Nat)
  coverage : String
deriving Repr, DecidableEq

def query {α : Type} : Option α → Except EngineError α
  | some a => .ok a
  | none => .error .adapter

/-- Row-level counts exist when the keyed path ran. -/
def ValueDiffRequest.measured {F : Type} (r : ValueDiffRequest F) : Bool :=
  !r.keyColumns.isEmpty && !r.strategy.isPartition

def rowSummary (base candidate : Nat) (counts : KeyedCounts) : RowSummary where
  baseRows := base
  candidateRows := candidate
  delta := candidate - base
  added := counts.added
  removed := counts.removed
  modified := counts.modified
  unchanged := counts.unchanged

def rowPolicy (measured : Bool) (name metric : String) (value max : Int) : PolicyResult where
  policy := name
  passed := measured && decide (value ≤ max)
  detail :=
    if measured then metric ++ " " ++ toString value ++ " (max " ++ toString max ++ ")"
    else metric ++ " cannot be measured without keyed row counts"

namespace ValueView

variable {V F : Type} [DecidableEq V] (v : ValueView V F)
variable {r : ValueDiffRequest F}
variable {candidate base : SqlTable V} {report : ValueDiffReport}

section

omit [DecidableEq V]

def fractionPolicy (measured : Bool) (summary : RowSummary) (maxFraction : F) : PolicyResult :=
  let changed := summary.added + summary.removed + summary.modified
  let base := max summary.baseRows 1
  { policy := "max_changed_fraction"
    passed := measured && v.fractions.within changed base maxFraction
    detail :=
      if measured then "changed fraction " ++ v.fractions.text changed base maxFraction
      else "changed fraction cannot be measured without keyed row counts" }

/-- `evaluate_policy`: a threshold that was never measured fails. -/
def evaluatePolicy (r : ValueDiffRequest F) (summary : RowSummary) : List PolicyResult :=
  (r.policy.maxAddedRows.toList.map
      (rowPolicy r.measured "max_added_rows" "added" summary.added)) ++
    (r.policy.maxRemovedRows.toList.map
      (rowPolicy r.measured "max_removed_rows" "removed" summary.removed)) ++
    (r.policy.maxModifiedRows.toList.map
      (rowPolicy r.measured "max_modified_rows" "modified" summary.modified)) ++
    (r.policy.maxChangedFraction.toList.map (v.fractionPolicy r.measured summary)) ++
    (if r.policy.requireKeyedDiff then
      [{ policy := "require_keyed_diff"
         passed := r.measured
         detail := "a stable key is required for keyed diffing" }]
    else []) ++
    if r.policy.requireFullDiff then
      [{ policy := "require_full_diff"
         passed := !r.keyColumns.isEmpty && decide (r.strategy = .keyed ∨ r.strategy = .full)
         detail := "full/keyed coverage is required" }]
    else []

/-- The two tables of a request under its keys and columns. -/
def keyedDiff (r : ValueDiffRequest F) (candidate base : SqlTable V) : KeyedDiff V F where
  candidate := candidate
  base := base
  keyColumns := r.keyColumns
  columns := r.columns
  tolerances := r.policy.tolerances
  arithmetic := v.arithmetic

end

/-- The changed columns of the compared ones, by name, with their counts. -/
def columnChanges (d : KeyedDiff V F) : Except EngineError (List (String × Nat)) := do
  let changes ← d.columns.mapM fun column => do
    let changed ← query (d.columnChanged column)
    pure (column, changed)
  pure ((changes.filter fun change => decide (0 < change.2)).dedup.insertionSort
    fun left right => left.1 ≤ right.1)

def compareRows (r : ValueDiffRequest F) (d : KeyedDiff V F) :
    Except EngineError RowComparison :=
  match r.strategy with
  | .partition columns => do
      let coverage ← v.partitions r.toDiffRequest columns
      pure { counts := ⟨0, 0, 0, 0⟩, columnChanges := [], coverage }
  | _ =>
    if r.keyColumns.isEmpty then
      pure
        { counts := ⟨0, 0, 0, 0⟩
          columnChanges := []
          coverage :=
            if r.strategy = .sampled then "sampled aggregate (row counts only)"
            else "aggregate (row counts only)" }
    else do
      let counts ← query d.keyedCounts
      let columnChanges ← columnChanges d
      pure
        { counts, columnChanges
          coverage :=
            match r.strategy with
            | .sampled => "sampled keyed"
            | .full => "full keyed"
            | _ => "keyed" }

/-- `diff`. -/
def diff (r : ValueDiffRequest F) : Except EngineError ValueDiffReport := do
  let base ← query (v.tables r.baseRelation)
  let candidate ← query (v.tables r.candidateRelation)
  let rows ← v.compareRows r (v.keyedDiff r candidate base)
  let summary := rowSummary base.rows.length candidate.rows.length rows.counts
  let policyResults := v.evaluatePolicy r summary
  pure
    { model := r.model
      candidateRelation := r.candidateRelation.display
      baseRelation := r.baseRelation.display
      passed := policyResults.all PolicyResult.passed
      strategy := r.strategy
      coverage := rows.coverage
      keyColumns := r.keyColumns
      rowSummary := summary
      columnChanges := rows.columnChanges
      policyResults }

/-! ## The diffs of a branch comparison -/

omit [DecidableEq V] in
/-- `model_keys`: the incremental key, else a declared uniqueness assertion. -/
def modelKeys (model : CompiledModel) : List String :=
  match model.config.incremental with
  | some (.key columns) => columns
  | _ => ((v.models model).assertions.findSome? fun assertion =>
    match assertion with
    | .unique columns => some columns
    | .notNull _ => none).getD []

omit [DecidableEq V] in
/-- The columns of an inferred schema that are no keys; none where the schema is unknown. -/
def comparedColumns (model : CompiledModel) : List String :=
  if (v.models model).schema.known then
    ((v.models model).schema.columns.map fun column => column.name).filter
      fun name => decide (name ∉ v.modelKeys model)
  else []

/-- `diff_policy`: the declared policy, or the default one. -/
def diffPolicy (spec : Option (DiffPolicy F)) : DiffPolicy F :=
  spec.getD {}

omit [DecidableEq V] in
/-- The request of two relations of a model. -/
def valueRequest (model : CompiledModel) (r : DiffRequest) : ValueDiffRequest F where
  toDiffRequest := r
  keyColumns := v.modelKeys model
  columns := v.comparedColumns model
  strategy := .keyed
  policy := diffPolicy (v.models model).diff

section Requests

variable [Rfc3339] (b : BranchComparison)

omit [DecidableEq V] in
/-- The value diff of a dataset, if deep mode makes one. -/
def deepRequest (dataset : DatasetDiff) : Option (ValueDiffRequest F) :=
  if dataset.status ≠ .changed then none
  else
    match b.compilation.modelByName dataset.dataset with
    | none => none
    | some model =>
      if (v.modelKeys model).isEmpty && (v.models model).diff.isNone then none
      else if !(b.resolved dataset.dataset).candidateExists ||
          !(b.resolved dataset.dataset).baseExists then none
      else
        match (b.resolved dataset.dataset).candidate, (b.resolved dataset.dataset).base with
        | some candidateRelation, some baseRelation =>
          some (v.valueRequest model
            { model := dataset.dataset, candidateRelation, baseRelation
              candidateVersion := dataset.candidateVersion
              baseVersion := dataset.baseVersion })
        | _, _ => none

omit [DecidableEq V] in
/-- The value diffs that a comparison makes: in deep mode, of the changed models that declare a
key or a policy. -/
def requests : List (ValueDiffRequest F) :=
  if b.request.deep then b.datasets.filterMap (v.deepRequest b) else []

def deepDiffs : Except EngineError (List ValueDiffReport) := do
  let diffs ← (v.requests b).mapM v.diff
  pure (diffs.insertionSort fun left right => left.model ≤ right.model)

/-- The comparison whose diffs are value diffs. -/
def attach : BranchComparison :=
  { b with
    view :=
      { b.view with
        isCompared := fun model =>
          !(v.modelKeys model).isEmpty || (v.models model).diff.isSome
        diff := fun r =>
          match b.compilation.modelByName r.model with
          | some model => (v.diff (v.valueRequest model r)).map ValueDiffReport.toDiffReport
          | none => .error .adapter } }

variable {b}

omit [DecidableEq V] in
theorem model_of_request {r : ValueDiffRequest F} (h : r ∈ v.requests b) :
    ∃ model, b.compilation.modelByName r.model = some model ∧
      r = v.valueRequest model r.toDiffRequest := by
  unfold requests at h
  split at h
  · obtain ⟨dataset, -, hrequest⟩ := List.mem_filterMap.1 h
    unfold deepRequest at hrequest
    split at hrequest
    · cases hrequest
    · split at hrequest
      · cases hrequest
      · next model hmodel =>
          split at hrequest
          · cases hrequest
          · split at hrequest
            · cases hrequest
            · split at hrequest
              · cases hrequest
                exact ⟨model, hmodel, rfl⟩
              · cases hrequest
  · cases h

omit [DecidableEq V] in
theorem strategy_of_request {r : ValueDiffRequest F} (h : r ∈ v.requests b) :
    r.strategy = .keyed := by
  obtain ⟨model, -, heq⟩ := v.model_of_request h
  rw [heq]
  rfl

end Requests

/-! ## Passing a threshold -/

/-- The policies that read the rows found modified. -/
def thresholds : List String :=
  ["max_modified_rows", "max_changed_fraction"]

/-- A report says that a threshold on modified rows passed. -/
def Passes (results : List PolicyResult) : Prop :=
  ∃ result ∈ results, result.policy ∈ thresholds ∧ result.passed = true

theorem passes_append {left right : List PolicyResult} :
    Passes (left ++ right) ↔ Passes left ∨ Passes right := by
  simp only [Passes, List.mem_append, or_and_right, exists_or]

theorem passes_map {α : Type} {declared : Option α} {result : α → PolicyResult} :
    Passes (declared.toList.map result) ↔ ∃ max, declared = some max ∧
      (result max).policy ∈ thresholds ∧ (result max).passed = true := by
  cases declared with
  | none => simp [Passes]
  | some max => simp [Passes]

theorem not_passes {results : List PolicyResult}
    (h : ∀ result ∈ results, result.policy ∉ thresholds) : ¬Passes results := by
  rintro ⟨result, hmem, hthreshold, -⟩
  exact h result hmem hthreshold

/-- A declared threshold holds of the summary. -/
def Within (policy : DiffPolicy F) (summary : RowSummary) : Prop :=
  (∃ max, policy.maxModifiedRows = some max ∧ summary.modified ≤ max) ∨
    ∃ max', policy.maxChangedFraction = some max' ∧
      v.fractions.within (summary.added + summary.removed + summary.modified)
        (max summary.baseRows 1) max' = true

omit [DecidableEq V] in
theorem passes_evaluatePolicy_iff {summary : RowSummary} :
    Passes (v.evaluatePolicy r summary) ↔ r.measured = true ∧ v.Within r.policy summary := by
  have hmodified : "max_modified_rows" ∈ thresholds := by decide
  have hfraction : "max_changed_fraction" ∈ thresholds := by decide
  have hadded : "max_added_rows" ∉ thresholds := by decide
  have hremoved : "max_removed_rows" ∉ thresholds := by decide
  have hkeyed : ¬Passes (if r.policy.requireKeyedDiff then
      [{ policy := "require_keyed_diff"
         passed := r.measured
         detail := "a stable key is required for keyed diffing" }] else []) := by
    apply not_passes
    split
    · simp [thresholds]
    · exact fun _ hmem => nomatch hmem
  have hfull : ¬Passes (if r.policy.requireFullDiff then
      [{ policy := "require_full_diff"
         passed := !r.keyColumns.isEmpty && decide (r.strategy = .keyed ∨ r.strategy = .full)
         detail := "full/keyed coverage is required" }] else []) := by
    apply not_passes
    split
    · simp [thresholds]
    · exact fun _ hmem => nomatch hmem
  simp only [evaluatePolicy, passes_append, passes_map, hkeyed, hfull, or_false, rowPolicy,
    fractionPolicy, hadded, hremoved, hmodified, hfraction, false_and, and_false, exists_false,
    false_or, true_and, Bool.and_eq_true, decide_eq_true_eq, Within]
  constructor
  · rintro (⟨max, hmax, hmeasured, hle⟩ | ⟨max, hmax, hmeasured, hle⟩)
    · exact ⟨hmeasured, Or.inl ⟨max, hmax, hle⟩⟩
    · exact ⟨hmeasured, Or.inr ⟨max, hmax, hle⟩⟩
  · rintro ⟨hmeasured, ⟨max, hmax, hle⟩ | ⟨max, hmax, hle⟩⟩
    · exact Or.inl ⟨max, hmax, hmeasured, hle⟩
    · exact Or.inr ⟨max, hmax, hmeasured, hle⟩

/-- Both relations can be read, and have the columns that the queries name. -/
def Answers (r : ValueDiffRequest F) : Prop :=
  ∃ candidate base, v.tables r.candidateRelation = some candidate ∧
    v.tables r.baseRelation = some base ∧
    (r.keyColumns ≠ [] →
      (v.keyedDiff r candidate base).HasColumns (r.keyColumns ++ r.columns))

/-- Every column of both relations that is no key is compared. -/
def ComparesShared (r : ValueDiffRequest F) : Prop :=
  ∀ candidate base, v.tables r.candidateRelation = some candidate →
    v.tables r.baseRelation = some base →
    ∀ column, candidate.HasColumns [column] → base.HasColumns [column] →
      SqlTable.Named r.keyColumns column ∨ SqlTable.Named r.columns column

/-- The rows found modified or changed are too many for the policy. -/
def Exceeds (r : ValueDiffRequest F) : Prop :=
  ∀ candidate base, v.tables r.candidateRelation = some candidate →
    v.tables r.baseRelation = some base →
    (∀ max, r.policy.maxModifiedRows = some max →
      max < ((v.keyedDiff r candidate base).modifiedRows : Int)) ∧
    ∀ max', r.policy.maxChangedFraction = some max' →
      v.fractions.within
        ((v.keyedDiff r candidate base).addedRows + (v.keyedDiff r candidate base).removedRows +
          (v.keyedDiff r candidate base).modifiedRows)
        (max (base.rows.length : Int) 1) max' = false

variable {v}

theorem query_eq_ok {α : Type} {answer : Option α} {a : α} :
    query answer = .ok a ↔ answer = some a := by
  cases answer <;> simp [query]

theorem columnChanges_eq_ok {d : KeyedDiff V F}
    (h : d.HasColumns (d.keyColumns ++ d.columns)) : ∃ changes, columnChanges d = .ok changes := by
  have hall : ∀ column ∈ d.columns,
      (do let changed ← query (d.columnChanged column)
          pure (column, changed) : Except EngineError (String × Nat)) =
        .ok (column, (d.columnChanged column).getD 0) := by
    intro column hcolumn
    rw [KeyedDiff.columnChanged_eq (KeyedDiff.hasColumns_column h hcolumn)]
    rfl
  unfold columnChanges
  rw [mapM_eq_ok hall]
  exact ⟨_, rfl⟩

/-- The counts of a keyed request, which stay zero without a key. -/
def keyedRows (d : KeyedDiff V F) : KeyedCounts :=
  if d.keyColumns.isEmpty then ⟨0, 0, 0, 0⟩
  else ⟨d.addedRows, d.removedRows, d.modifiedRows, d.unchangedRows⟩

/-- What a keyed comparison counts, where its queries are answered. -/
theorem compareRows_eq_ok (hkeyed : r.strategy = .keyed) (hcolumns : r.keyColumns ≠ [] →
      (v.keyedDiff r candidate base).HasColumns (r.keyColumns ++ r.columns)) :
    ∃ rows, v.compareRows r (v.keyedDiff r candidate base) = .ok rows ∧
      rows.counts = keyedRows (v.keyedDiff r candidate base) := by
  unfold compareRows keyedRows
  rw [hkeyed]
  change ∃ rows, (if r.keyColumns.isEmpty = true then _ else _) = _ ∧
    _ = if r.keyColumns.isEmpty = true then _ else _
  split
  · exact ⟨_, rfl, rfl⟩
  · next hempty =>
      have hkey : r.keyColumns ≠ [] := fun h => hempty (List.isEmpty_iff.2 h)
      obtain ⟨changes, hchanges⟩ := columnChanges_eq_ok (hcolumns hkey)
      rw [KeyedDiff.keyedCounts_eq _ hkey (hcolumns hkey), hchanges]
      exact ⟨_, rfl, rfl⟩

theorem hasColumns_of_compareRows (hkeyed : r.strategy = .keyed) {rows : RowComparison}
    (h : v.compareRows r (v.keyedDiff r candidate base) = .ok rows) (hkey : r.keyColumns ≠ []) :
    (v.keyedDiff r candidate base).HasColumns (r.keyColumns ++ r.columns) := by
  have hempty : ¬r.keyColumns.isEmpty = true := fun h => hkey (List.isEmpty_iff.1 h)
  unfold compareRows at h
  rw [hkeyed] at h
  change (if r.keyColumns.isEmpty = true then _ else _) = _ at h
  rw [if_neg hempty] at h
  obtain ⟨counts, hcounts, -⟩ := except_bind_eq_ok.1 h
  exact KeyedDiff.hasColumns_of_keyedCounts (query_eq_ok.1 hcounts)

theorem exists_diff_iff (hkeyed : r.strategy = .keyed) :
    (∃ report, v.diff r = .ok report) ↔ v.Answers r := by
  constructor
  · rintro ⟨report, h⟩
    obtain ⟨base, hbase, h⟩ := except_bind_eq_ok.1 h
    obtain ⟨candidate, hcandidate, h⟩ := except_bind_eq_ok.1 h
    obtain ⟨rows, hrows, -⟩ := except_bind_eq_ok.1 h
    exact ⟨candidate, base, query_eq_ok.1 hcandidate, query_eq_ok.1 hbase,
      hasColumns_of_compareRows hkeyed hrows⟩
  · rintro ⟨candidate, base, hcandidate, hbase, hcolumns⟩
    obtain ⟨rows, hrows, -⟩ := compareRows_eq_ok hkeyed hcolumns
    unfold diff
    rw [hcandidate, hbase]
    change ∃ report, (v.compareRows r (v.keyedDiff r candidate base) >>= _) = _
    rw [hrows]
    exact ⟨_, rfl⟩

/-- The results of a keyed diff judge the rows that its keys count. -/
theorem policyResults_eq (hkeyed : r.strategy = .keyed) (h : v.diff r = .ok report) :
    ∃ candidate base, v.tables r.candidateRelation = some candidate ∧
      v.tables r.baseRelation = some base ∧
      report.policyResults = v.evaluatePolicy r
        (rowSummary base.rows.length candidate.rows.length
          (keyedRows (v.keyedDiff r candidate base))) := by
  obtain ⟨base, hbase, h⟩ := except_bind_eq_ok.1 h
  obtain ⟨candidate, hcandidate, h⟩ := except_bind_eq_ok.1 h
  obtain ⟨rows, hrows, h⟩ := except_bind_eq_ok.1 h
  obtain ⟨rows', hrows', hcounts⟩ :=
    compareRows_eq_ok hkeyed (hasColumns_of_compareRows hkeyed hrows)
  rw [hrows, Except.ok.injEq] at hrows'
  refine ⟨candidate, base, query_eq_ok.1 hcandidate, query_eq_ok.1 hbase, ?_⟩
  rw [← hcounts, ← hrows']
  cases h
  rfl

/-- A keyed diff passes a threshold exactly when it has a key, and the rows that differ in the
listed columns are not too many. -/
theorem passes_iff (hkeyed : r.strategy = .keyed) (h : v.diff r = .ok report) :
    Passes report.policyResults ↔ r.keyColumns ≠ [] ∧ ¬v.Exceeds r := by
  obtain ⟨candidate, base, hcandidate, hbase, hresults⟩ := policyResults_eq hkeyed h
  have hmeasured : r.measured = true ↔ r.keyColumns ≠ [] := by
    rw [ValueDiffRequest.measured, hkeyed]
    simp [DiffStrategy.isPartition]
  rw [hresults, passes_evaluatePolicy_iff, hmeasured, and_congr_right_iff]
  intro hkey
  have hrows : keyedRows (v.keyedDiff r candidate base) =
      ⟨(v.keyedDiff r candidate base).addedRows, (v.keyedDiff r candidate base).removedRows,
        (v.keyedDiff r candidate base).modifiedRows,
        (v.keyedDiff r candidate base).unchangedRows⟩ :=
    if_neg fun hempty => hkey (List.isEmpty_iff.1 hempty)
  rw [hrows, Within, Exceeds]
  constructor
  · rintro (⟨max, hmax, hle⟩ | ⟨max, hmax, hwithin⟩) hexceeds
    · have hlt := (hexceeds candidate base hcandidate hbase).1 max hmax
      exact absurd hle (Int.not_le.2 hlt)
    · have hfalse := (hexceeds candidate base hcandidate hbase).2 max hmax
      exact Bool.false_ne_true (hfalse.symm.trans hwithin)
  · intro hexceeds
    by_contra hnone
    rw [not_or, not_exists, not_exists] at hnone
    apply hexceeds
    intro candidate' base' hcandidate' hbase'
    rw [hcandidate, Option.some.injEq] at hcandidate'
    rw [hbase, Option.some.injEq] at hbase'
    subst hcandidate' hbase'
    refine ⟨fun max hmax => ?_, fun max hmax => ?_⟩
    · exact Int.not_le.1 fun hle => hnone.1 max ⟨hmax, hle⟩
    · exact Bool.eq_false_iff.2 fun hwithin => hnone.2 max ⟨hmax, hwithin⟩

/-! ## Thresholds on what was measured -/

section Thresholds

variable [Rfc3339] {b : BranchComparison}

variable (v b) in
/-- A threshold on modified rows passes only where the rows were compared in every column of
both relations that is no key. -/
def ThresholdsMeasured : Prop :=
  ∀ reports, v.deepDiffs b = .ok reports → ∀ r ∈ v.requests b, ∀ report ∈ reports,
    v.diff r = .ok report → Passes report.policyResults → v.ComparesShared r

theorem exists_mem_deepDiffs {reports : List ValueDiffReport} (h : v.deepDiffs b = .ok reports)
    {r : ValueDiffRequest F} (hr : r ∈ v.requests b) :
    ∃ report ∈ reports, v.diff r = .ok report := by
  obtain ⟨diffs, hdiffs, hsorted⟩ := except_bind_eq_ok.1 h
  cases hsorted
  obtain ⟨report, hmem, hdiff⟩ := exists_mem_of_mapM hdiffs r hr
  exact ⟨report, (List.mem_insertionSort _).2 hmem, hdiff⟩

theorem exists_deepDiffs (h : ∀ r ∈ v.requests b, v.Answers r) :
    ∃ reports, v.deepDiffs b = .ok reports := by
  have hall : ∀ r ∈ v.requests b, ∃ report, v.diff r = .ok report := by
    intro r hr
    exact (exists_diff_iff (v.strategy_of_request hr)).2 (h r hr)
  obtain ⟨diffs, hdiffs⟩ := exists_mapM_eq_ok hall
  unfold deepDiffs
  rw [hdiffs]
  exact ⟨_, rfl⟩

variable (v b) in
/-- The schema inferred for a model is known, and has every column of both relations that is no
key, if there is one. -/
def SchemaCovers (r : ValueDiffRequest F) : Prop :=
  ∃ model, b.compilation.modelByName r.model = some model ∧
    ∀ candidate base, v.tables r.candidateRelation = some candidate →
      v.tables r.baseRelation = some base →
      ∀ column, candidate.HasColumns [column] → base.HasColumns [column] →
        ¬SqlTable.Named (v.modelKeys model) column →
        (v.models model).schema.known = true ∧
          SqlTable.Named ((v.models model).schema.columns.map fun c => c.name) column

omit [DecidableEq V] [Rfc3339] in
/-- A column that is no key is compared when it is in a known schema. -/
theorem named_comparedColumns_iff {model : CompiledModel} {column : String}
    (hkey : ¬SqlTable.Named (v.modelKeys model) column) :
    SqlTable.Named (v.comparedColumns model) column ↔
      (v.models model).schema.known = true ∧
        SqlTable.Named ((v.models model).schema.columns.map fun c => c.name) column := by
  unfold comparedColumns
  split
  · next hknown =>
      constructor
      · rintro ⟨name, hname, hfold⟩
        exact ⟨hknown, name, (List.mem_filter.1 hname).1, hfold⟩
      · rintro ⟨-, name, hname, hfold⟩
        refine ⟨name, List.mem_filter.2 ⟨hname, decide_eq_true fun hmem => ?_⟩, hfold⟩
        exact hkey ⟨name, hmem, hfold⟩
  · next hunknown =>
      constructor
      · rintro ⟨name, hname, -⟩
        exact absurd hname List.not_mem_nil
      · rintro ⟨hknown, -⟩
        exact absurd hknown hunknown

omit [DecidableEq V] in
theorem comparesShared_iff {r : ValueDiffRequest F} (hr : r ∈ v.requests b) :
    v.ComparesShared r ↔ v.SchemaCovers b r := by
  obtain ⟨model, hmodel, heq⟩ := v.model_of_request hr
  have hkeys : r.keyColumns = v.modelKeys model := congrArg ValueDiffRequest.keyColumns heq
  have hcolumns : r.columns = v.comparedColumns model := congrArg ValueDiffRequest.columns heq
  unfold ComparesShared SchemaCovers
  rw [hkeys, hcolumns]
  constructor
  · intro hshared
    refine ⟨model, hmodel, ?_⟩
    intro candidate base hcandidate hbase column hleft hright hkey
    have hnamed := hshared candidate base hcandidate hbase column hleft hright
    exact (named_comparedColumns_iff hkey).1 (hnamed.resolve_left hkey)
  · rintro ⟨model', hmodel', hcovers⟩ candidate base hcandidate hbase column hleft hright
    rw [hmodel, Option.some.injEq] at hmodel'
    subst hmodel'
    by_cases hkey : SqlTable.Named (v.modelKeys model) column
    · exact Or.inl hkey
    · right
      rw [named_comparedColumns_iff hkey]
      exact hcovers candidate base hcandidate hbase column hleft hright hkey

/-- Thresholds are measured exactly when deep mode fails, or each of its models has no key, has a
known schema with every column of both relations, or exceeds its thresholds anyway. -/
theorem thresholdsMeasured_iff :
    v.ThresholdsMeasured b ↔ (∃ r ∈ v.requests b, ¬v.Answers r) ∨
      ∀ r ∈ v.requests b, r.keyColumns = [] ∨ v.SchemaCovers b r ∨ v.Exceeds r := by
  constructor
  · intro hmeasured
    by_cases hanswers : ∀ r ∈ v.requests b, v.Answers r
    · right
      intro r hr
      obtain ⟨reports, hreports⟩ := exists_deepDiffs hanswers
      obtain ⟨report, hmem, hdiff⟩ := exists_mem_deepDiffs hreports hr
      by_cases hkey : r.keyColumns = []
      · exact Or.inl hkey
      · by_cases hexceeds : v.Exceeds r
        · exact Or.inr (Or.inr hexceeds)
        · have hpasses := (passes_iff (v.strategy_of_request hr) hdiff).2 ⟨hkey, hexceeds⟩
          have hshared := hmeasured reports hreports r hr report hmem hdiff hpasses
          exact Or.inr (Or.inl ((comparesShared_iff hr).1 hshared))
    · left
      simpa only [not_forall, exists_prop] using hanswers
  · intro hcondition reports hreports r hr report hmem hdiff hpasses
    obtain ⟨hkey, hexceeds⟩ := (passes_iff (v.strategy_of_request hr) hdiff).1 hpasses
    rcases hcondition with ⟨r', hr', hfails⟩ | hall
    · obtain ⟨report', -, hdiff'⟩ := exists_mem_deepDiffs hreports hr'
      exact absurd ((exists_diff_iff (v.strategy_of_request hr')).1 ⟨report', hdiff'⟩) hfails
    · rcases hall r hr with hnone | hcovers | hmany
      · exact absurd hnone hkey
      · exact (comparesShared_iff hr).2 hcovers
      · exact absurd hmany hexceeds

end Thresholds

/-! ## A model of unknown schema -/

namespace Sample

def percentages : Fractions Nat where
  within changed base percent := decide (changed * 100 ≤ percent * base)
  text changed base percent :=
    toString changed ++ "/" ++ toString base ++ " (max " ++ toString percent ++ "%)"

def oneRow (value : Nat) : SqlTable Nat where
  columns := ["id", "value"]
  rows := [[some 1, some value]]
  distinct := by decide +kernel
  widths := by simp

def changedValue : ValueView Nat Nat where
  tables relation := some (oneRow (if relation.catalog = some "phlo_ci" then 12 else 10))
  arithmetic := KeyedDiff.Sample.distances
  fractions := percentages
  models model :=
    if model.id = Core.Sample.martModel.id then
      { assertions := [.unique ["id"]]
        schema := { columns := [], known := false }
        diff := some { maxModifiedRows := some 0, maxChangedFraction := some 0 } }
    else { assertions := [], schema := { columns := [], known := false }, diff := none }
  partitions := fun _ _ => .error .adapter

def branches : BranchComparison where
  view :=
    { relationExists := fun _ => true
      sourceState := fun relation => relation.catalog
      schemaChanges := fun _ _ _ => []
      rowCount := fun _ => .ok 1
      isCompared := fun _ => true
      diff := fun _ => .error .adapter }
  state := none
  compilation := Core.Sample.chain
  request :=
    { candidateRef := "ci/pr-1", baseRef := "main", candidateCatalog := some "phlo_ci"
      baseCatalog := some "phlo_main", deep := true, defaultSchema := none
      candidateHash := none, baseHash := none }

def martRelation (catalog : String) : Relation where
  catalog := some catalog
  schema := "main"
  table := "mart"

def martRequest : ValueDiffRequest Nat :=
  changedValue.valueRequest Core.Sample.martModel
    { model := "assay.mart"
      candidateRelation := martRelation "phlo_ci"
      baseRelation := martRelation "phlo_main"
      candidateVersion := none
      baseVersion := none }

def martReport : ValueDiffReport where
  model := "assay.mart"
  candidateRelation := "phlo_ci.main.mart"
  baseRelation := "phlo_main.main.mart"
  passed := true
  strategy := .keyed
  coverage := "keyed"
  keyColumns := ["id"]
  rowSummary :=
    { baseRows := 1, candidateRows := 1, delta := 0, added := 0, removed := 0, modified := 0
      unchanged := 1 }
  columnChanges := []
  policyResults :=
    [{ policy := "max_modified_rows", passed := true, detail := "modified 0 (max 0)" },
      { policy := "max_changed_fraction", passed := true
        detail := "changed fraction 0/1 (max 0%)" }]

theorem martRequest_mem : martRequest ∈ @requests Nat Nat changedValue januaryClock branches := by
  let _ := januaryClock
  have hrequests : (changedValue.requests branches).map ValueDiffRequest.toDiffRequest =
      [martRequest.toDiffRequest] := by
    decide +kernel
  obtain ⟨r, hr, heq⟩ : ∃ r ∈ changedValue.requests branches,
      r.toDiffRequest = martRequest.toDiffRequest := by
    apply List.mem_map.1
    rw [hrequests]
    exact List.mem_singleton_self _
  obtain ⟨model, hmodel, hrequest⟩ := changedValue.model_of_request hr
  have hmart : branches.compilation.modelByName "assay.mart" =
      some Core.Sample.martModel := by
    decide +kernel
  have hname : martRequest.model = "assay.mart" := rfl
  rw [heq] at hmodel hrequest
  rw [hname, hmart, Option.some.injEq] at hmodel
  rw [← hmodel] at hrequest
  have hmartRequest : r = martRequest := hrequest
  rwa [hmartRequest] at hr

/-- A row that changed passes a limit of no modified row. -/
theorem unmeasured_threshold_passes : @deepDiffs Nat Nat _ changedValue januaryClock branches =
      .ok [martReport] ∧ ¬ @ThresholdsMeasured Nat Nat _ changedValue januaryClock branches := by
  let _ := januaryClock
  have hdiffs : changedValue.deepDiffs branches = .ok [martReport] :=
    eq_ok_of_toOption (by decide +kernel)
  have hdiff : changedValue.diff martRequest = .ok martReport :=
    eq_ok_of_toOption (by decide +kernel)
  have hpasses : Passes martReport.policyResults :=
    ⟨_, List.mem_cons_self, by decide, rfl⟩
  refine ⟨hdiffs, fun hmeasured => ?_⟩
  have hshared := hmeasured _ hdiffs martRequest martRequest_mem martReport
    (List.mem_singleton_self _) hdiff hpasses
  have hcandidate : (oneRow 12).HasColumns ["value"] := by decide +kernel
  have hbase : (oneRow 10).HasColumns ["value"] := by decide +kernel
  have hnamed := hshared _ _ rfl rfl "value" hcandidate hbase
  exact absurd hnamed (by decide +kernel)

end Sample

end ValueView

end PhloTransform.Engine
