import PhloTransform.Engine.IncrementalWrites
import PhloTransform.Engine.PhysicalOps
import PhloTransform.Engine.SeedLiterals
import PhloTransform.Library.StatementRuns

/-!
# What a failed write leaves

The adapters write a relation with statements that are atomic one by one.  Some operations are
one statement, some drop before they create, some delete before they insert, and a seed is
inserted in batches.  No transaction is around them.

Main results:

- Theorem `fails_iff`: the relations that a failed call can leave.
- Theorem `dropped_by_failure`: a table that a failed call drops.
-/

namespace PhloTransform.Engine.FailedWrites

open Library SeedLiterals
open IncrementalWrites (Adapter)

variable {V : Type}
variable {size k : Nat}

/-! ## Relations and statements -/

/-- A table with the types of its columns. -/
@[ext]
structure Stored (V : Type) where
  table : SqlTable V
  types : List String

/-- What a query returns when the relation is there as given, or `none` when it fails. -/
abbrev Query (V : Type) :=
  Option (Stored V) → Option (Stored V)

/-- The statements of the adapters about one relation. -/
inductive Sql (V : Type)
  | describe
  | createOrReplaceAs (sql : Query V)
  | dropTableIfExists
  | createTableAs (sql : Query V)
  | insertSelect (sql : Query V)
  | deleteIn (columns : List String) (sql : Query V)
  | mergeInto (sql : Query V) (on update insert : List String)
  | createOrReplace (columns : List (String × SeedType))
  | insertValues (rows : List (List (List Char)))

/-- The empty table of a list of columns, which must have different names. -/
def emptyTable (columns : List (String × SeedType)) : Option (Stored V) :=
  if h : ((columns.map Prod.fst).map foldCase).Nodup then
    some
      { table := ⟨columns.map Prod.fst, [], h, by simp⟩
        types := columns.map fun column => column.2.sql }
  else none

/-- A row of literals as it is stored in columns of the given types. -/
def storedRow (value : String → List Char → Option (Option V)) :
    List String → List (List Char) → Option (List (Option V))
  | [], [] => some []
  | type :: types, text :: texts => do
      let v ← value type text
      let row ← storedRow value types texts
      some (v :: row)
  | _, _ => none

/-- `INSERT INTO relation VALUES rows`. -/
def insertRows (value : String → List Char → Option (Option V)) (stored : Stored V)
    (rows : List (List (List Char))) : Option (Stored V) := do
  let rows ← rows.mapM (storedRow value stored.types)
  if h : ∀ row ∈ rows, row.length = stored.table.columns.length then
    some { stored with table := stored.table.withRows (stored.table.rows ++ rows)
                                  (List.forall_mem_append.2 ⟨stored.table.widths, h⟩) }
  else none

variable [DecidableEq V]

/-- The relation a statement leaves, or `none` when the server refuses it. -/
def exec (value : String → List Char → Option (Option V)) :
    Sql V → Option (Stored V) → Option (Option (Stored V))
  | .describe, relation => relation.map some
  | .createOrReplaceAs sql, relation => (sql relation).map some
  | .dropTableIfExists, _ => some none
  | .createTableAs sql, relation => if relation.isSome then none else (sql relation).map some
  | .insertSelect sql, relation => do
      let stored ← relation
      let source ← sql relation
      let table ← (Statement.insertSelect source.table).run stored.table
      some (some { stored with table := table })
  | .deleteIn columns sql, relation => do
      let stored ← relation
      let source ← sql relation
      let table ← (Statement.deleteIn columns source.table).run stored.table
      some (some { stored with table := table })
  | .mergeInto sql on update insert, relation => do
      let stored ← relation
      let source ← sql relation
      let table ← (Statement.mergeInto source.table on update insert).run stored.table
      some (some { stored with table := table })
  | .createOrReplace columns, _ => (emptyTable columns).map some
  | .insertValues rows, relation => do
      let stored ← relation
      let after ← insertRows value stored rows
      some (some after)

/-- The server: how it stores a literal in a column of a type, and its errors. -/
structure Server (V : Type) where
  value : String → List Char → Option (Option V)
  refusal : Sql V → AdapterError

/-- A call of an adapter: the relation, and how many statements were issued. -/
abbrev Call (V α : Type) :=
  Program (Option (Stored V) × Nat) AdapterError α

def run (server : Server V) (fails : Nat → Option AdapterError) (sql : Sql V) : Call V Unit :=
  issue (exec server.value) server.refusal fails sql

/-- A seed's file.  The reader of the Trino adapter opens it and returns its header, then its
records; DuckDB reads it by itself. -/
structure SeedFile (V : Type) where
  headers : Except AdapterError (List String)
  records : List (Except AdapterError (List String))
  readCsvAuto : Query V

/-! ## The operations of the adapters -/

section Operations

variable (server : Server V) (fails : Nat → Option AdapterError)

def deleteInsert (columns : List String) (sql : Query V) : Call V Unit := do
  run server fails (.deleteIn columns sql)
  run server fails (.insertSelect sql)

namespace DuckDbAdapter

def createOrReplaceTable (sql : Query V) : Call V Unit :=
  run server fails (.createOrReplaceAs sql)

def append (sql : Query V) : Call V Unit :=
  run server fails (.insertSelect sql)

def merge (keyColumns : List String) (sql : Query V) : Call V Unit :=
  if keyColumns.isEmpty then append server fails sql
  else deleteInsert server fails keyColumns sql

def replacePartitions (partitionColumns : List String) (sql : Query V) : Call V Unit :=
  deleteInsert server fails partitionColumns sql

def loadCsv (file : SeedFile V) : Call V Unit :=
  run server fails (.createOrReplaceAs file.readCsvAuto)

end DuckDbAdapter

/-- `rows.chunks(size)`. -/
def chunks {α : Type} (size : Nat) (rows : List α) : List (List α) :=
  (List.range ((rows.length + size - 1) / size)).map fun i => (rows.drop (size * i)).take size

/-- The columns of a seed, each with the type of its cells. -/
def seedColumns (headers : List String) (rows : List (List String)) :
    List (String × SeedType) :=
  headers.zipIdx.map fun (name, index) =>
    (name, inferCsvType (rows.filterMap fun row => row[index]?))

def seedValues (columns : List (String × SeedType)) (row : List String) : List (List Char) :=
  columns.zipIdx.map fun (column, index) => csvLiteral row[index]? column.2

/-- `AdapterError::new`. -/
def AdapterError.new (code : String) : AdapterError :=
  { code := code, retryable := false }

instance : Nonempty AdapterError :=
  ⟨AdapterError.new ""⟩

namespace TrinoAdapter

def createOrReplaceTable (sql : Query V) : Call V Unit := do
  run server fails .dropTableIfExists
  run server fails (.createTableAs sql)

/-- The columns `DESCRIBE` lists. -/
def relationColumns : Call V (List String) := do
  run server fails .describe
  let (relation, _) ← Program.get
  pure (relation.elim [] fun stored => stored.table.columns)

def merge (keyColumns : List String) (sql : Query V) : Call V Unit := do
  let columns ← relationColumns server fails
  if columns.isEmpty then
    Program.fail (AdapterError.new "TRINO_MERGE")
  else
    let update := columns.filter fun column =>
      !keyColumns.any fun key => foldCase key == foldCase column
    run server fails (.mergeInto sql keyColumns update columns)

def replacePartitions (partitionColumns : List String) (sql : Query V) : Call V Unit :=
  deleteInsert server fails partitionColumns sql

/-- The header and the records of a seed's file. -/
def readSeed (file : SeedFile V) : Except AdapterError (List String × List (List String)) := do
  let headers ← file.headers
  if headers.isEmpty then
    throw (AdapterError.new "SEED_IO")
  let rows ← file.records.mapM id
  pure (headers, rows)

/-- One statement for each batch of rows. -/
def insertBatches (columns : List (String × SeedType)) : List (List (List String)) → Call V Unit
  | [] => pure ()
  | batch :: rest => do
      run server fails (.insertValues (batch.map (seedValues columns)))
      insertBatches columns rest

def loadCsv (file : SeedFile V) : Call V Unit := do
  let (headers, rows) ← Program.ofExcept (readSeed file)
  let columns := seedColumns headers rows
  run server fails (.createOrReplace columns)
  insertBatches server fails columns (chunks 200 rows)

end TrinoAdapter

end Operations

/-- The operations that replace rows. -/
inductive WriteOp (V : Type)
  | createOrReplaceTable (sql : Query V)
  | merge (keyColumns : List String) (sql : Query V)
  | replacePartitions (partitionColumns : List String) (sql : Query V)
  | loadCsv (file : SeedFile V)

def perform (server : Server V) (fails : Nat → Option AdapterError) :
    Adapter → WriteOp V → Call V Unit
  | .duckDb, .createOrReplaceTable sql => DuckDbAdapter.createOrReplaceTable server fails sql
  | .duckDb, .merge keys sql => DuckDbAdapter.merge server fails keys sql
  | .duckDb, .replacePartitions columns sql =>
    DuckDbAdapter.replacePartitions server fails columns sql
  | .duckDb, .loadCsv file => DuckDbAdapter.loadCsv server fails file
  | .trino, .createOrReplaceTable sql => TrinoAdapter.createOrReplaceTable server fails sql
  | .trino, .merge keys sql => TrinoAdapter.merge server fails keys sql
  | .trino, .replacePartitions columns sql =>
    TrinoAdapter.replacePartitions server fails columns sql
  | .trino, .loadCsv file => TrinoAdapter.loadCsv server fails file

/-- A call that finds a relation can fail and leave another one. -/
def Fails (server : Server V) (adapter : Adapter) (op : WriteOp V)
    (before after : Option (Stored V)) : Prop :=
  ∃ fails e n, perform server fails adapter op (before, 0) = (.error e, (after, n))

/-! ## The batches of a seed -/

section

omit [DecidableEq V]

theorem insertRows_eq_some {value : String → List Char → Option (Option V)}
    {stored after : Stored V} {rows : List (List (List Char))} :
    insertRows value stored rows = some after ↔
      ∃ new, rows.mapM (storedRow value stored.types) = some new ∧
        (∀ row ∈ new, row.length = stored.table.columns.length) ∧
        after.types = stored.types ∧ after.table.columns = stored.table.columns ∧
        after.table.rows = stored.table.rows ++ new := by
  unfold insertRows
  rw [Option.bind_eq_bind, Option.bind_eq_some_iff]
  refine exists_congr fun new => and_congr_right fun _ => ?_
  split
  case isTrue hwidths =>
      rw [Option.some.injEq, and_iff_right hwidths]
      constructor
      · rintro rfl
        exact ⟨rfl, rfl, rfl⟩
      · rintro ⟨htypes, hcolumns, hrows⟩
        apply Stored.ext
        · exact SqlTable.ext hcolumns.symm hrows.symm
        · exact htypes.symm
  case isFalse hwidths =>
      refine iff_of_false (by simp) fun h => hwidths h.1

theorem insertRows_nil (value : String → List Char → Option (Option V)) (stored : Stored V) :
    insertRows value stored [] = some stored := by
  rw [insertRows_eq_some]
  exact ⟨[], rfl, by simp, rfl, rfl, by simp⟩

/-- Inserting twice is inserting the rows of both statements. -/
theorem insertRows_append (value : String → List Char → Option (Option V)) (stored : Stored V)
    (first second : List (List (List Char))) :
    insertRows value stored (first ++ second) =
      (insertRows value stored first).bind fun between => insertRows value between second := by
  ext after
  simp only [Option.bind_eq_some_iff, insertRows_eq_some, List.mapM_append,
    Option.bind_eq_bind, Option.pure_def, Option.some.injEq]
  constructor
  · rintro ⟨new, ⟨left, hleft, right, hright, rfl⟩, hwidths, htypes, hcolumns, hrows⟩
    obtain ⟨hw, hw'⟩ := List.forall_mem_append.1 hwidths
    refine ⟨{ stored with table := stored.table.withRows (stored.table.rows ++ left)
                                     (List.forall_mem_append.2 ⟨stored.table.widths, hw⟩) },
      ⟨left, hleft, hw, rfl, rfl, rfl⟩, right, hright, hw', htypes, hcolumns, ?_⟩
    rw [hrows, ← List.append_assoc]
    rfl
  · rintro ⟨between, ⟨left, hleft, hw, htypes, hcolumns, hrows⟩, right, hright, hw', htypes',
      hcolumns', hrows'⟩
    rw [htypes] at hright htypes'
    rw [hcolumns] at hw' hcolumns'
    rw [hrows, List.append_assoc] at hrows'
    exact ⟨left ++ right, ⟨left, hleft, right, hright, rfl⟩,
      List.forall_mem_append.2 ⟨hw, hw'⟩, htypes', hcolumns', hrows'⟩

end

theorem flatten_take_chunks {α : Type} {rows : List α} (hk : k ≤ (chunks size rows).length) :
    ((chunks size rows).take k).flatten = rows.take (size * k) := by
  unfold chunks at hk ⊢
  rw [List.length_map, List.length_range] at hk
  rw [← List.map_take, List.take_range, Nat.min_eq_left hk]
  clear hk
  induction k with
  | zero => rfl
  | succ k ih =>
    rw [List.range_succ, List.map_append, List.flatten_append, ih, Nat.mul_succ, List.take_add]
    simp

theorem lt_length_chunks {α : Type} {rows : List α} (hsize : 0 < size) :
    k < (chunks size rows).length ↔ size * k < rows.length := by
  unfold chunks
  rw [List.length_map, List.length_range, Nat.lt_iff_add_one_le, Nat.le_div_iff_mul_le hsize,
    Nat.add_mul, Nat.mul_comm k size]
  omega

def insertBatch (columns : List (String × SeedType)) (batch : List (List String)) : Sql V :=
  .insertValues (batch.map (seedValues columns))

theorem insertBatches_eq (server : Server V) (fails : Nat → Option AdapterError)
    (columns : List (String × SeedType)) (batches : List (List (List String))) :
    TrinoAdapter.insertBatches server fails columns batches =
      issueAll (exec server.value) server.refusal fails (batches.map (insertBatch columns)) := by
  induction batches with
  | nil => rfl
  | cons batch rest ih =>
    rw [TrinoAdapter.insertBatches, ih]
    rfl

theorem exec_insertValues (value : String → List Char → Option (Option V)) (stored : Stored V)
    (rows : List (List (List Char))) :
    exec value (.insertValues rows) (some stored) = (insertRows value stored rows).map some := by
  change (insertRows value stored rows).bind (fun after => some (some after)) = _
  cases insertRows value stored rows <;> rfl

theorem effects_insertBatch (server : Server V) (columns : List (String × SeedType))
    (batches : List (List (List String))) (stored : Stored V) :
    effects (exec server.value) (batches.map (insertBatch columns)) (some stored) =
      (insertRows server.value stored (batches.flatten.map (seedValues columns))).map some := by
  induction batches generalizing stored with
  | nil =>
    simp only [List.flatten_nil, List.map_nil, insertRows_nil]
    rfl
  | cons batch rest ih =>
    rw [List.map_cons, effects, List.flatten_cons, List.map_append, insertRows_append,
      Option.map_bind]
    rw [insertBatch, exec_insertValues, Option.bind_map]
    congr 1
    funext after
    exact ih after

/-- The table of a seed with some of its rows. -/
def seedTable (server : Server V) (columns : List (String × SeedType))
    (rows : List (List String)) : Option (Stored V) := do
  let empty ← emptyTable columns
  insertRows server.value empty (rows.map (seedValues columns))

def seedStatements (columns : List (String × SeedType)) (rows : List (List String)) :
    List (Sql V) :=
  .createOrReplace columns :: (chunks 200 rows).map (insertBatch columns)

/-- The statements of a seed leave its table with the rows of the batches so far. -/
theorem effects_seedStatements (server : Server V) {columns : List (String × SeedType)}
    {rows : List (List String)} (hk : k ≤ (chunks 200 rows).length) (before : Option (Stored V)) :
    effects (exec server.value) ((seedStatements columns rows).take (k + 1)) before =
      (seedTable server columns (rows.take (200 * k))).map some := by
  rw [seedStatements, List.take_succ_cons, effects, ← List.map_take]
  unfold seedTable
  rw [← flatten_take_chunks hk, Option.bind_eq_bind, Option.map_bind]
  have hexec : exec server.value (.createOrReplace columns) before =
      (emptyTable columns).map some := rfl
  rw [hexec, Option.bind_map]
  congr 1
  funext empty
  exact effects_insertBatch server columns _ empty

/-! ## What a failed call leaves -/

/-- A failed call can leave a relation in the place of another one: the one it found, or what
the statements before the failed one made of it. -/
def Leaves (server : Server V) (before after : Option (Stored V)) :
    Adapter → WriteOp V → Prop
  | .duckDb, .merge keys sql =>
    after = before ∨
      keys ≠ [] ∧ exec server.value (.deleteIn keys sql) before = some after
  | _, .replacePartitions columns sql =>
    after = before ∨ exec server.value (.deleteIn columns sql) before = some after
  | .trino, .createOrReplaceTable _ => after = before ∨ after = none
  | .trino, .loadCsv file =>
    after = before ∨
      ∃ headers rows k, TrinoAdapter.readSeed file = .ok (headers, rows) ∧
        200 * k < rows.length ∧
        (seedTable server (seedColumns headers rows) (rows.take (200 * k))).map some =
          some after
  | .duckDb, .createOrReplaceTable _ => after = before
  | .duckDb, .loadCsv _ => after = before
  | .trino, .merge _ _ => after = before

variable {server : Server V} {before after : Option (Stored V)}

theorem exists_run_eq_error_iff {statement : Sql V} :
    (∃ fails e n, run server fails statement (before, 0) = (.error e, (after, n))) ↔
      after = before := by
  have hrun : ∀ fails, run server fails statement =
      issueAll (exec server.value) server.refusal fails [statement] :=
    fun fails => (issueAll_singleton statement).symm
  simp only [hrun, exists_issueAll_eq_error_iff, List.length_singleton, Nat.lt_one_iff]
  simp [effects, eq_comm]

theorem exists_pair_eq_error_iff {first second : Sql V} :
    (∃ fails e n, (run server fails first >>= fun _ => run server fails second) (before, 0) =
        (.error e, (after, n))) ↔ after = before ∨ exec server.value first before = some after := by
  have hrun : ∀ fails, (run server fails first >>= fun _ => run server fails second) =
      issueAll (exec server.value) server.refusal fails [first, second] := by
    intro fails
    rw [issueAll, issueAll_singleton]
    rfl
  simp only [hrun, exists_issueAll_eq_error_iff]
  constructor
  · rintro ⟨k, hk, heffects⟩
    have hcases : k = 0 ∨ k = 1 := by
      change k < 2 at hk
      omega
    rcases hcases with rfl | rfl
    · cases heffects
      exact Or.inl rfl
    · rw [List.take_succ_cons, effects] at heffects
      obtain ⟨between, hexec, hafter⟩ := Option.bind_eq_some_iff.1 heffects
      cases hafter
      exact Or.inr hexec
  · rintro (rfl | hexec)
    · exact ⟨0, Nat.succ_pos 1, rfl⟩
    · refine ⟨1, Nat.lt_succ_self 1, ?_⟩
      rw [List.take_succ_cons, effects, hexec]
      rfl

theorem relationColumns_run {fails : Nat → Option AdapterError} {n m : Nat}
    {r : Except AdapterError (List String)} {relation : Option (Stored V)}
    (h : TrinoAdapter.relationColumns server fails (before, n) = (r, (relation, m))) :
    relation = before := by
  rcases Program.run_bind_cases h with ⟨e, hdescribe⟩ | ⟨_, ⟨described, m'⟩, hdescribe, hget⟩
  · exact issue_eq_error hdescribe
  · have hexec := issue_eq_ok hdescribe
    have hsame : described = before := by
      obtain ⟨stored, hstored, hdescribed⟩ := Option.map_eq_some_iff.1 hexec
      rw [hstored, hdescribed]
    cases hget
    exact hsame

theorem exists_trinoMerge_eq_error_iff {keys : List String} {sql : Query V} :
    (∃ fails e n, TrinoAdapter.merge server fails keys sql (before, 0) =
        (.error e, (after, n))) ↔ after = before := by
  constructor
  · rintro ⟨fails, e, n, h⟩
    rcases Program.bind_eq_error.1 h with hread | ⟨columns, ⟨relation, m⟩, hread, hmerge⟩
    · exact relationColumns_run hread
    · have hsame : relation = before := relationColumns_run hread
      subst hsame
      dsimp only at hmerge
      split at hmerge
      · cases hmerge
        rfl
      · exact issue_eq_error hmerge
  · rintro rfl
    obtain ⟨e⟩ : Nonempty AdapterError := inferInstance
    refine ⟨fun _ => some e, e, 1, ?_⟩
    have hdescribe : run server (fun _ => some e) .describe (after, 0) = (.error e, (after, 1)) :=
      rfl
    apply Program.bind_of_error
    exact Program.bind_of_error hdescribe

theorem exists_loadCsv_eq_error_iff {file : SeedFile V} :
    (∃ fails e n, TrinoAdapter.loadCsv server fails file (before, 0) = (.error e, (after, n))) ↔
      after = before ∨
        ∃ headers rows k, TrinoAdapter.readSeed file = .ok (headers, rows) ∧
          200 * k < rows.length ∧
          (seedTable server (seedColumns headers rows) (rows.take (200 * k))).map some =
            some after := by
  cases hread : TrinoAdapter.readSeed file with
  | error e =>
    have hload : ∀ fails, TrinoAdapter.loadCsv server fails file (before, 0) =
        (.error e, (before, 0)) := by
      intro fails
      unfold TrinoAdapter.loadCsv
      rw [hread]
      rfl
    simp only [hload]
    constructor
    · rintro ⟨fails, e', n, h⟩
      cases h
      exact Or.inl rfl
    · rintro (rfl | ⟨headers, rows, k, h, -⟩)
      · exact ⟨fun _ => none, e, 0, rfl⟩
      · cases h
  | ok seed =>
    obtain ⟨headers, rows⟩ := seed
    have hload : ∀ fails, TrinoAdapter.loadCsv server fails file (before, 0) =
        issueAll (exec server.value) server.refusal fails
          (seedStatements (seedColumns headers rows) rows) (before, 0) := by
      intro fails
      unfold TrinoAdapter.loadCsv
      rw [hread]
      rw [seedStatements, issueAll, ← insertBatches_eq]
      rfl
    simp only [hload, exists_issueAll_eq_error_iff]
    have hlength : (seedStatements (V := V) (seedColumns headers rows) rows).length =
        (chunks 200 rows).length + 1 := by
      rw [seedStatements, List.length_cons, List.length_map]
    constructor
    · rintro ⟨k, hk, heffects⟩
      cases k with
      | zero =>
        cases heffects
        exact Or.inl rfl
      | succ k =>
        have hchunk : k < (chunks 200 rows).length := by omega
        rw [effects_seedStatements server hchunk.le] at heffects
        exact Or.inr ⟨headers, rows, k, rfl, (lt_length_chunks (by decide)).1 hchunk, heffects⟩
    · rintro (rfl | ⟨headers', rows', k, hsame, hk, htable⟩)
      · exact ⟨0, by omega, rfl⟩
      · cases hsame
        have hchunk := (lt_length_chunks (by decide)).2 hk
        exact ⟨k + 1, by omega, (effects_seedStatements server hchunk.le before).trans htable⟩

/-- The relations that a failed call can leave: only the statements before the failed one are
done. -/
theorem fails_iff (server : Server V) (adapter : Adapter) (op : WriteOp V)
    (before after : Option (Stored V)) :
    Fails server adapter op before after ↔ Leaves server before after adapter op := by
  cases adapter with
  | duckDb =>
    cases op with
    | createOrReplaceTable sql => exact exists_run_eq_error_iff
    | merge keys sql =>
      cases keys with
      | nil =>
        refine exists_run_eq_error_iff.trans ?_
        simp [Leaves]
      | cons key keys =>
        refine exists_pair_eq_error_iff.trans ?_
        simp [Leaves]
    | replacePartitions columns sql => exact exists_pair_eq_error_iff
    | loadCsv file => exact exists_run_eq_error_iff
  | trino =>
    cases op with
    | createOrReplaceTable sql =>
      refine exists_pair_eq_error_iff.trans (or_congr_right ?_)
      exact Option.some_inj.trans eq_comm
    | merge keys sql => exact exists_trinoMerge_eq_error_iff
    | replacePartitions columns sql => exact exists_pair_eq_error_iff
    | loadCsv file => exact exists_loadCsv_eq_error_iff

/-- A table of stock and a server for which every literal is a value. -/
def stored : Stored Nat where
  table := IncrementalWrites.stock
  types := ["bigint", "bigint"]

def plainServer : Server Nat where
  value := fun _ _ => some none
  refusal := fun _ => AdapterError.new "TRINO"

/-- Trino drops the table, and then the query cannot be run. -/
theorem dropped_by_failure :
    Fails plainServer .trino (.createOrReplaceTable fun _ => none) (some stored) none ∧
      (none : Option (Stored Nat)) ≠ some stored :=
  ⟨⟨fun _ => none, AdapterError.new "TRINO", 2, rfl⟩, nofun⟩

end PhloTransform.Engine.FailedWrites
