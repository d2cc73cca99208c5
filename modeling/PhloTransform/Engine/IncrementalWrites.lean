import PhloTransform.Library.SqlTable

/-!
# Incremental writes by key

An incremental model with a key is merged into its table, one with partition columns replaces
the partitions of its query.  The DuckDB adapter deletes and inserts for both.  The Trino
adapter merges by column name, and deletes and inserts partitions.

Main results:

- Theorem `executeOp_eq_upsert`: on keys without nulls that no two rows of the table share,
  and columns in the table's order, both adapters leave the upsert.
- Theorem `upsertSemantics_iff`: when a write is an upsert that both adapters do alike and
  that changes nothing the second time.
-/

namespace PhloTransform.Engine.IncrementalWrites

open Library Library.SqlTable

variable {V : Type*} [DecidableEq V]
variable {after : SqlTable V}

/-! ## The statements of the adapters -/

/-- Delete the rows whose columns are in the query, then insert the query. -/
def deleteInsert (relation : SqlTable V) (columns : List String) (sql : SqlTable V) :
    Option (SqlTable V) := do
  let relation ← (Statement.deleteIn columns sql).run relation
  (Statement.insertSelect sql).run relation

namespace DuckDbAdapter

def append (relation sql : SqlTable V) : Option (SqlTable V) :=
  (Statement.insertSelect sql).run relation

def merge (relation : SqlTable V) (keyColumns : List String) (sql : SqlTable V) :
    Option (SqlTable V) :=
  if keyColumns.isEmpty then
    append relation sql
  else
    deleteInsert relation keyColumns sql

def replacePartitions (relation : SqlTable V) (partitionColumns : List String)
    (sql : SqlTable V) : Option (SqlTable V) :=
  deleteInsert relation partitionColumns sql

end DuckDbAdapter

namespace TrinoAdapter

/-- The columns `DESCRIBE` lists. -/
def relationColumns (relation : SqlTable V) : List String :=
  relation.columns

/-- The columns a matched row is updated in. -/
def updateColumns (relation : SqlTable V) (keyColumns : List String) : List String :=
  (relationColumns relation).filter fun column =>
    !keyColumns.any fun key => foldCase key == foldCase column

def merge (relation : SqlTable V) (keyColumns : List String) (sql : SqlTable V) :
    Option (SqlTable V) :=
  let columns := relationColumns relation
  if columns.isEmpty then
    none
  else
    (Statement.mergeInto sql keyColumns (updateColumns relation keyColumns) columns).run relation

def replacePartitions (relation : SqlTable V) (partitionColumns : List String)
    (sql : SqlTable V) : Option (SqlTable V) :=
  deleteInsert relation partitionColumns sql

end TrinoAdapter

/-- The adapters that write incrementally. -/
inductive Adapter where
  | duckDb
  | trino
deriving Repr, DecidableEq

/-- The operations of models with a key or with partition columns. -/
inductive ExecOp where
  | merge (keys : List String)
  | replacePartitions (columns : List String)
deriving Repr, DecidableEq

def ExecOp.columns : ExecOp → List String
  | merge keys => keys
  | replacePartitions columns => columns

/-- The table an operation leaves, or `none` when a statement of it fails. -/
def executeOp (adapter : Adapter) (target compiledSql : SqlTable V) (op : ExecOp) :
    Option (SqlTable V) :=
  match adapter, op with
  | .duckDb, .merge keys => DuckDbAdapter.merge target keys compiledSql
  | .duckDb, .replacePartitions columns =>
    DuckDbAdapter.replacePartitions target columns compiledSql
  | .trino, .merge keys => TrinoAdapter.merge target keys compiledSql
  | .trino, .replacePartitions columns =>
    TrinoAdapter.replacePartitions target columns compiledSql

/-! ## What an operation leaves -/

variable {target batch : SqlTable V} {names keys : List String} {op : ExecOp}

theorem deleteInsert_eq_some (hcolumns : SameColumns target batch) (hnonempty : names ≠ [])
    (hnames : target.HasColumns names) :
    ∃ after, deleteInsert target names batch = some after ∧
      after.columns = target.columns ∧
      after.bag = (target.bag.filter fun row =>
        ¬Matches (target.tuple names) (incoming target batch) NoNull row) + batch.bag := by
  obtain ⟨deleted, hdelete, hdeleted, hkept⟩ := hcolumns.run_deleteIn hnonempty hnames
  obtain ⟨after, hinsert, hafter, hbag⟩ :=
    (hcolumns.of_columns_eq hdeleted).run_insertSelect
  refine ⟨after, ?_, hafter.trans hdeleted, by rw [hbag, hkept]⟩
  unfold deleteInsert
  rw [hdelete]
  exact hinsert

theorem deleteInsert_eq_none (batch : SqlTable V) (hnames : ¬target.HasColumns names) :
    deleteInsert target names batch = none := by
  have hdelete : (Statement.deleteIn names batch).run target = none :=
    if_neg fun h => hnames h.2.1
  unfold deleteInsert
  rw [hdelete]
  rfl

/-- A delete and insert is an upsert when no common key holds a null and the query read by
position is the query read by name. -/
theorem deleteInsert_eq_upsert_iff :
    (target.bag.filter fun row =>
        ¬Matches (target.tuple names) (incoming target batch) NoNull row) + batch.bag =
          upsert target batch names ↔
      (∀ row ∈ target.bag, target.tuple names row ∈
        (incoming target batch).map (target.tuple names) → NoNull (target.tuple names row)) ∧
      batch.bag = incoming target batch := by
  apply deleteInsert_eq_upserted_iff
  exact (Multiset.card_map _ _).symm

omit [DecidableEq V] in
theorem named_or_updated (column : String) (hcolumn : column ∈ target.columns) :
    Named keys column ∨ Named (TrinoAdapter.updateColumns target keys) column := by
  by_cases hkey : Named keys column
  · exact Or.inl hkey
  · refine Or.inr ⟨column, List.mem_filter.2 ⟨hcolumn, ?_⟩, rfl⟩
    rw [Bool.not_eq_true', List.any_eq_false]
    intro name hname hfold
    exact hkey ⟨name, hname, beq_iff_eq.1 hfold⟩

theorem trinoMerge_eq_some (hcolumns : SameColumns target batch) (hnonempty : keys ≠ [])
    (hnames : target.HasColumns keys) (hdistinct : (batch.rows.map (batch.tuple keys)).Nodup) :
    ∃ after, TrinoAdapter.merge target keys batch = some after ∧
      after.columns = target.columns ∧
      after.bag = target.bag.map
          (updatedRow target batch keys (TrinoAdapter.updateColumns target keys)) +
        (incoming target batch).filter fun new =>
          ¬Matching (target.tuple keys) target.bag NoNull new := by
  have hupdate : target.HasColumns (TrinoAdapter.updateColumns target keys) := by
    intro name hname
    exact List.mem_map_of_mem (List.mem_of_mem_filter hname)
  have hsome : target.columns.isEmpty = false := by
    obtain ⟨name, hname⟩ := List.exists_mem_of_ne_nil keys hnonempty
    obtain ⟨column, hcolumn, -⟩ := List.mem_map.1 (hnames name hname)
    rw [List.isEmpty_eq_false_iff_exists_mem]
    exact ⟨column, hcolumn⟩
  obtain ⟨after, hmerge, hafter, hbag⟩ :=
    hcolumns.run_mergeInto hnonempty hnames hupdate hdistinct
  refine ⟨after, ?_, hafter, hbag⟩
  refine (if_neg ?_).trans hmerge
  rw [TrinoAdapter.relationColumns, hsome]
  exact Bool.false_ne_true

/-- A merge is an upsert when no common key holds a null or is in two rows of the table. -/
theorem trinoMerge_eq_upsert_iff (hnames : target.HasColumns keys)
    (hdistinct : (batch.rows.map (batch.tuple keys)).Nodup) :
    target.bag.map (updatedRow target batch keys (TrinoAdapter.updateColumns target keys)) +
        (incoming target batch).filter (fun new =>
          ¬Matching (target.tuple keys) target.bag NoNull new) =
          upsert target batch keys ↔
      (∀ row ∈ target.bag, target.tuple keys row ∈
        (incoming target batch).map (target.tuple keys) → NoNull (target.tuple keys row)) ∧
      ((target.bag.filter (Matches (target.tuple keys) (incoming target batch) NoNull)).map
        (target.tuple keys)).Nodup := by
  apply merged_eq_upserted_iff (hnames.updates hdistinct named_or_updated)
  rw [hnames.map_tuple_incoming]
  exact Multiset.coe_nodup.2 hdistinct

theorem executeOp_eq_none (batch : SqlTable V) (hnonempty : op.columns ≠ [])
    (hnames : ¬target.HasColumns op.columns) (adapter : Adapter) :
    executeOp adapter target batch op = none := by
  have hdelete := deleteInsert_eq_none batch hnames
  cases op with
  | replacePartitions columns => cases adapter <;> exact hdelete
  | merge keys =>
    cases adapter with
    | duckDb =>
      refine (if_neg ?_).trans hdelete
      rw [List.isEmpty_iff]
      exact hnonempty
    | trino =>
      have hmerge : (Statement.mergeInto batch keys (TrinoAdapter.updateColumns target keys)
          target.columns).run target = none :=
        if_neg fun h => hnames h.1.2.1
      by_cases hempty : (TrinoAdapter.relationColumns target).isEmpty
      · exact if_pos hempty
      · exact (if_neg hempty).trans hmerge

/-! ## Upsert semantics -/

/-- The key tuples of a merged batch are distinct. -/
def ExecOp.Distinct (op : ExecOp) (batch : SqlTable V) : Prop :=
  ∀ keys, op = .merge keys → (batch.rows.map (batch.tuple keys)).Nodup

/-- An operation puts the rows of the batch in the place of the rows with the same key, changes
nothing the second time, and is the same operation on both adapters. -/
structure UpsertSemantics (target batch : SqlTable V) (op : ExecOp) : Prop where
  upserts : ∀ adapter after, executeOp adapter target batch op = some after →
    after.columns = target.columns ∧ after.bag = upsert target batch op.columns
  settles : ∀ adapter after, executeOp adapter target batch op = some after →
    ∃ again, executeOp adapter after batch op = some again ∧ Same again after
  agree : ∀ first second, executeOp .duckDb target batch op = some first →
    executeOp .trino target batch op = some second → Same first second

/-- The batch has no null in a key, its keys are in at most one row each of a merged table, and
its rows read by position are its rows read by name. -/
structure WritesByKey (target batch : SqlTable V) (op : ExecOp) : Prop where
  noNull : ∀ row ∈ batch.rows, NoNull (batch.tuple op.columns row)
  unrepeated : ∀ keys, op = .merge keys →
    ((target.bag.filter fun row =>
      target.tuple keys row ∈ batch.bag.map (batch.tuple keys)).map (target.tuple keys)).Nodup
  positional : batch.bag = incoming target batch

omit [DecidableEq V] in
/-- A common key holds no null when no key of the batch does. -/
theorem noNull_of_mem_incoming (hnames : target.HasColumns names)
    (hnull : ∀ row ∈ batch.rows, NoNull (batch.tuple names row)) :
    ∀ row ∈ target.bag, target.tuple names row ∈
      (incoming target batch).map (target.tuple names) → NoNull (target.tuple names row) := by
  intro row _ hmem
  rw [hnames.map_tuple_incoming] at hmem
  obtain ⟨new, hnew, hkey⟩ := Multiset.mem_map.1 hmem
  rw [← hkey]
  exact hnull new hnew

/-- Where no key of the batch holds a null, the rows a merge matches are those with a key of the
batch. -/
theorem filter_matches (hnames : target.HasColumns keys)
    (hnull : ∀ row ∈ target.bag, target.tuple keys row ∈
      (incoming target batch).map (target.tuple keys) → NoNull (target.tuple keys row)) :
    target.bag.filter (Matches (target.tuple keys) (incoming target batch) NoNull) =
      target.bag.filter fun row =>
        target.tuple keys row ∈ batch.bag.map (batch.tuple keys) := by
  rw [← hnames.map_tuple_incoming]
  apply Multiset.filter_congr
  intro row hrow
  exact and_iff_left_of_imp (hnull row hrow)

/-- Both adapters leave the upsert of a batch that writes by key. -/
theorem executeOp_eq_upsert (hcolumns : SameColumns target batch) (hnonempty : op.columns ≠ [])
    (hdistinct : op.Distinct batch) (hnames : target.HasColumns op.columns)
    (h : WritesByKey target batch op) (adapter : Adapter) :
    ∃ after, executeOp adapter target batch op = some after ∧
      after.columns = target.columns ∧ after.bag = upsert target batch op.columns := by
  have hnull := noNull_of_mem_incoming hnames h.noNull
  obtain ⟨deleted, hdelete, hafter, hbag⟩ := deleteInsert_eq_some hcolumns hnonempty hnames
  rw [deleteInsert_eq_upsert_iff.2 ⟨hnull, h.positional⟩] at hbag
  cases op with
  | replacePartitions columns =>
    refine ⟨deleted, ?_, hafter, hbag⟩
    cases adapter <;> exact hdelete
  | merge keys =>
    cases adapter with
    | duckDb =>
      refine ⟨deleted, (if_neg ?_).trans hdelete, hafter, hbag⟩
      rw [List.isEmpty_iff]
      exact hnonempty
    | trino =>
      have hkeys := hdistinct keys rfl
      obtain ⟨merged, hmerge, hmerged, hrows⟩ :=
        trinoMerge_eq_some hcolumns hnonempty hnames hkeys
      refine ⟨merged, hmerge, hmerged, ?_⟩
      rw [hrows, trinoMerge_eq_upsert_iff hnames hkeys, filter_matches hnames hnull]
      exact ⟨hnull, h.unrepeated keys rfl⟩

/-- What a write leaves is written by key again: its rows with a key of the batch are the
batch. -/
theorem WritesByKey.again (h : WritesByKey target batch op) (hdistinct : op.Distinct batch)
    (hnames : target.HasColumns op.columns) (hafter : after.columns = target.columns)
    (hbag : after.bag = upsert target batch op.columns) : WritesByKey after batch op where
  noNull := h.noNull
  unrepeated := by
    rintro keys rfl
    have hkeys : target.HasColumns keys := hnames
    rw [tuple_of_columns_eq hafter, hbag, ← hkeys.map_tuple_incoming]
    unfold upsert ExecOp.columns
    rw [filter_mem_upserted, hkeys.map_tuple_incoming]
    exact Multiset.coe_nodup.2 (hdistinct keys rfl)
  positional := by
    rw [incoming_of_columns_eq hafter]
    exact h.positional

theorem upsert_of_eq_upsert (hafter : after.columns = target.columns)
    (hbag : after.bag = upsert target batch names) : upsert after batch names = after.bag := by
  rw [upsert, tuple_of_columns_eq hafter, incoming_of_columns_eq hafter, hbag, upsert,
    upserted_upserted]

/-- A delete and insert that is an upsert both times reads the batch by name and meets no
null. -/
theorem writes_of_deleteInsert {adapter : Adapter} (hcolumns : SameColumns target batch)
    (hnonempty : op.columns ≠ []) (hnames : target.HasColumns op.columns)
    (hop : ∀ table : SqlTable V,
      executeOp adapter table batch op = deleteInsert table op.columns batch)
    (h : UpsertSemantics target batch op) :
    (∀ row ∈ batch.rows, NoNull (batch.tuple op.columns row)) ∧
      batch.bag = incoming target batch := by
  obtain ⟨after, hdelete, hafter, hbag⟩ := deleteInsert_eq_some hcolumns hnonempty hnames
  rw [← hop target] at hdelete
  have hupsert := (h.upserts adapter after hdelete).2
  have hpositional := (deleteInsert_eq_upsert_iff.1 (hbag.symm.trans hupsert)).2
  refine ⟨?_, hpositional⟩
  -- the second time every row of the batch has a key of the batch
  obtain ⟨again, hagain, -, hsame⟩ := h.settles adapter after hdelete
  have hnames' := hnames.of_columns_eq hafter
  obtain ⟨again', hdelete', -, hbag'⟩ :=
    deleteInsert_eq_some (hcolumns.of_columns_eq hafter) hnonempty hnames'
  rw [← hop after, hagain] at hdelete'
  cases hdelete'
  have hsettled := hsame.trans (upsert_of_eq_upsert hafter hupsert).symm
  have hnull := (deleteInsert_eq_upsert_iff.1 (hbag'.symm.trans hsettled)).1
  intro row hrow
  have hincoming : aligned after.columns batch.columns row ∈ incoming after batch :=
    mem_incoming.2 ⟨row, hrow, rfl⟩
  have hmem : aligned after.columns batch.columns row ∈ after.bag := by
    rw [← upsert_of_eq_upsert hafter hupsert]
    exact Multiset.mem_add.2 (Or.inr hincoming)
  rw [← hnames'.tuple_aligned row]
  exact hnull _ hmem (Multiset.mem_map_of_mem _ hincoming)

/-- On a table with the columns of the batch, a write by the key columns is an upsert that both
adapters do alike and that changes nothing the second time exactly when its columns are
columns of the table only if the batch writes by key. -/
theorem upsertSemantics_iff (hcolumns : SameColumns target batch) (hnonempty : op.columns ≠ [])
    (hdistinct : op.Distinct batch) :
    UpsertSemantics target batch op ↔
      (target.HasColumns op.columns → WritesByKey target batch op) := by
  constructor
  · intro h hnames
    have hdeletes : ∀ table : SqlTable V,
        executeOp .duckDb table batch op = deleteInsert table op.columns batch := by
      intro table
      cases op with
      | replacePartitions columns => rfl
      | merge keys =>
        refine if_neg ?_
        rw [List.isEmpty_iff]
        exact hnonempty
    obtain ⟨hnull, hpositional⟩ :=
      writes_of_deleteInsert hcolumns hnonempty hnames hdeletes h
    refine ⟨hnull, ?_, hpositional⟩
    rintro keys rfl
    have hkeys := hdistinct keys rfl
    obtain ⟨merged, hmerge, -, hrows⟩ := trinoMerge_eq_some hcolumns hnonempty hnames hkeys
    have hupsert := (h.upserts .trino merged hmerge).2
    rw [hrows] at hupsert
    have hunrepeated := ((trinoMerge_eq_upsert_iff hnames hkeys).1 hupsert).2
    rwa [filter_matches hnames (noNull_of_mem_incoming hnames hnull)] at hunrepeated
  · intro h
    by_cases hnames : target.HasColumns op.columns
    · have hwrites := h hnames
      have hexecute := executeOp_eq_upsert hcolumns hnonempty hdistinct hnames hwrites
      have hupserts : ∀ adapter after, executeOp adapter target batch op = some after →
          after.columns = target.columns ∧ after.bag = upsert target batch op.columns := by
        intro adapter after hafter
        obtain ⟨left, hleft, hresult⟩ := hexecute adapter
        rw [hafter] at hleft
        cases hleft
        exact hresult
      refine ⟨hupserts, ?_, ?_⟩
      · intro adapter after hafter
        obtain ⟨hsame, hbag⟩ := hupserts adapter after hafter
        obtain ⟨again, hagain, hsame', hbag'⟩ := executeOp_eq_upsert
          (hcolumns.of_columns_eq hsame) hnonempty hdistinct (hnames.of_columns_eq hsame)
          (hwrites.again hdistinct hnames hsame hbag) adapter
        exact ⟨again, hagain, hsame', hbag'.trans (upsert_of_eq_upsert hsame hbag)⟩
      · intro first second hfirst hsecond
        obtain ⟨hcolumns₁, hbag₁⟩ := hupserts _ _ hfirst
        obtain ⟨hcolumns₂, hbag₂⟩ := hupserts _ _ hsecond
        exact ⟨hcolumns₁.trans hcolumns₂.symm, hbag₁.trans hbag₂.symm⟩
    · have hnone := executeOp_eq_none batch hnonempty hnames
      refine ⟨?_, ?_, ?_⟩
      · intro adapter after hafter
        rw [hnone] at hafter
        cases hafter
      · intro adapter after hafter
        rw [hnone] at hafter
        cases hafter
      · intro first second hfirst _
        rw [hnone] at hfirst
        cases hfirst

/-! ## A table of stock -/

def stock : SqlTable Nat where
  columns := ["id", "count"]
  rows := [[some 1, some 5], [some 2, some 8]]
  distinct := by decide +kernel
  widths := by decide

/-- A recount whose query selects the columns in the table's order. -/
def recount : SqlTable Nat where
  columns := ["ID", "count"]
  rows := [[some 1, some 9], [some 3, none]]
  distinct := by decide +kernel
  widths := by decide

/-- A recount whose query selects the count first. -/
def countFirst : SqlTable Nat where
  columns := ["count", "id"]
  rows := [[some 9, some 1]]
  distinct := by decide +kernel
  widths := by decide

theorem sameColumns_recount : SameColumns stock recount := by
  have hfold : stock.columns.map foldCase = recount.columns.map foldCase := by decide +kernel
  intro name
  rw [hfold]

theorem sameColumns_countFirst : SameColumns stock countFirst := by
  have hfold : (stock.columns.map foldCase).Perm (countFirst.columns.map foldCase) := by
    decide +kernel
  intro name
  exact hfold.mem_iff

omit [DecidableEq V] in
theorem distinct_merge {batch : SqlTable V} (h : (batch.rows.map (batch.tuple keys)).Nodup) :
    (ExecOp.merge keys).Distinct batch := by
  rintro keys' hkeys
  cases hkeys
  exact h

theorem upsertSemantics_iff_recount :
    UpsertSemantics stock recount (.merge ["id"]) ↔
      (stock.HasColumns ["id"] → WritesByKey stock recount (.merge ["id"])) :=
  upsertSemantics_iff sameColumns_recount (by decide) (distinct_merge (by decide +kernel))

/-- A query that selects the count before the key puts the count of an item under its key: the
delete and insert of DuckDB goes by position. -/
theorem countFirst_not_upserted :
    SameColumns stock countFirst ∧ (ExecOp.merge ["id"]).Distinct countFirst ∧
      ¬UpsertSemantics stock countFirst (.merge ["id"]) := by
  refine ⟨sameColumns_countFirst, distinct_merge (by decide +kernel), ?_⟩
  intro h
  have hrows : (executeOp .duckDb stock countFirst (.merge ["id"])).map SqlTable.rows =
      some [[some 2, some 8], [some 9, some 1]] := by
    decide +kernel
  obtain ⟨after, hafter, hleft⟩ := Option.map_eq_some_iff.1 hrows
  have hbag := (h.upserts .duckDb after hafter).2
  unfold SqlTable.bag at hbag
  rw [hleft] at hbag
  revert hbag
  decide +kernel

end PhloTransform.Engine.IncrementalWrites
