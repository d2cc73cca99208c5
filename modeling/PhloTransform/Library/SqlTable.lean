import Mathlib.Algebra.Order.Group.Multiset
import Mathlib.Data.Multiset.Filter
import Mathlib.Data.String.Basic
import Mathlib.Tactic.Common

/-!
# Tables and upserts in SQL

Rows are lists of values under a list of column names, and a table is a bag of rows.  A
value may be null: a comparison with null is unknown, and a statement acts on the rows for
which its condition is true.

Main results:

- Theorem `deleteInsert_eq_upserted_iff`: when deleting the matched rows and inserting the
  batch is an upsert.
- Theorem `merged_eq_upserted_iff`: when updating the matched rows and inserting the others
  is an upsert.
-/

namespace PhloTransform.Library

/-! ## Upserts of bags -/

section Upserts

variable {α κ : Type*} [DecidableEq κ] (key : α → κ) (old batch : Multiset α)
variable {update : α → α}

/-- The old rows whose key is in no batch row, and the batch rows. -/
def upserted : Multiset α :=
  old.filter (fun row => key row ∉ batch.map key) + batch

/-- The old rows that a batch row matches, where a key must be comparable to match. -/
def Matches (comparable : κ → Prop) (row : α) : Prop :=
  key row ∈ batch.map key ∧ comparable (key row)

variable {key old batch} {comparable : κ → Prop} [DecidablePred comparable]

instance : DecidablePred (Matches key batch comparable) :=
  fun _ => inferInstanceAs (Decidable (_ ∧ _))

/-- The rows that are not matched have a new key, or one that is not comparable. -/
theorem filter_not_matches :
    old.filter (fun row => ¬Matches key batch comparable row) =
      old.filter (fun row => key row ∉ batch.map key) +
        old.filter (fun row => key row ∈ batch.map key ∧ ¬comparable (key row)) := by
  rw [← Multiset.filter_add_not (fun row => key row ∉ batch.map key)
    (old.filter fun row => ¬Matches key batch comparable row), Multiset.filter_filter,
    Multiset.filter_filter]
  congr 1
  · apply Multiset.filter_congr
    intro row _
    simp only [Matches]
    tauto
  · apply Multiset.filter_congr
    intro row _
    simp only [Matches]
    tauto

theorem filter_incomparable_eq_zero_iff :
    old.filter (fun row => key row ∈ batch.map key ∧ ¬comparable (key row)) = 0 ↔
      ∀ row ∈ old, key row ∈ batch.map key → comparable (key row) := by
  rw [Multiset.filter_eq_nil]
  refine forall₂_congr fun row _ => ?_
  tauto

/-- Deleting the matched rows and inserting as many is an upsert exactly when every key of
the batch that an old row has is comparable and what is inserted is the batch. -/
theorem deleteInsert_eq_upserted_iff {inserted : Multiset α}
    (hcard : inserted.card = batch.card) :
    old.filter (fun row => ¬Matches key batch comparable row) + inserted =
        upserted key old batch ↔
      (∀ row ∈ old, key row ∈ batch.map key → comparable (key row)) ∧ inserted = batch := by
  rw [filter_not_matches, upserted, add_assoc, add_right_inj, ← filter_incomparable_eq_zero_iff]
  constructor
  · intro h
    have hcards := congrArg Multiset.card h
    rw [Multiset.card_add] at hcards
    have hzero : old.filter (fun row => key row ∈ batch.map key ∧ ¬comparable (key row)) = 0 := by
      apply Multiset.card_eq_zero.1
      omega
    rw [hzero, zero_add] at h
    exact ⟨hzero, h⟩
  · rintro ⟨hzero, rfl⟩
    rw [hzero, zero_add]

/-- What a merge leaves in the place of an old row. -/
structure Updates (key : α → κ) (batch : Multiset α) (comparable : κ → Prop)
    (update : α → α) : Prop where
  matched : ∀ row, comparable (key row) → ∀ new ∈ batch, key new = key row → update row = new
  unmatched : ∀ row, ¬Matches key batch comparable row → update row = row

/-- The batch rows that match some old row. -/
def Matching (key : α → κ) (old : Multiset α) (comparable : κ → Prop) (new : α) : Prop :=
  ∃ row ∈ old, key row = key new ∧ comparable (key row)

instance (new : α) : Decidable (Matching key old comparable new) :=
  Multiset.decidableExistsMultiset

omit [DecidableEq κ] [DecidablePred comparable] in
theorem Updates.update_of_matches (h : Updates key batch comparable update) {row : α}
    (hrow : Matches key batch comparable row) :
    ∃ new ∈ batch, key new = key row ∧ update row = new := by
  obtain ⟨new, hnew, hkey⟩ := Multiset.mem_map.1 hrow.1
  exact ⟨new, hnew, hkey, h.matched row hrow.2 new hnew hkey⟩

theorem Updates.map_eq (h : Updates key batch comparable update) :
    old.map update = old.filter (fun row => ¬Matches key batch comparable row) +
      (old.filter (Matches key batch comparable)).map update := by
  have hkept : (old.filter fun row => ¬Matches key batch comparable row).map update =
      old.filter fun row => ¬Matches key batch comparable row := by
    refine (Multiset.map_congr rfl fun row hrow => ?_).trans (Multiset.map_id' _)
    exact h.unmatched row (Multiset.mem_filter.1 hrow).2
  conv_lhs => rw [← Multiset.filter_add_not (Matches key batch comparable) old]
  rw [Multiset.map_add, hkept, add_comm]

/-- The matched rows turn into the matching batch rows exactly when no key occurs twice
among them. -/
theorem Updates.map_matched_eq_iff (h : Updates key batch comparable update)
    (hbatch : (batch.map key).Nodup) :
    (old.filter (Matches key batch comparable)).map update =
        batch.filter (Matching key old comparable) ↔
      ((old.filter (Matches key batch comparable)).map key).Nodup := by
  have hkeys : ((old.filter (Matches key batch comparable)).map update).map key =
      (old.filter (Matches key batch comparable)).map key := by
    rw [Multiset.map_map]
    refine Multiset.map_congr rfl fun row hrow => ?_
    obtain ⟨new, -, hkey, hupdate⟩ := h.update_of_matches (Multiset.mem_filter.1 hrow).2
    rw [Function.comp_apply, hupdate, hkey]
  constructor
  · intro heq
    rw [← hkeys, heq]
    exact Multiset.nodup_of_le (Multiset.map_le_map (Multiset.filter_le _ _)) hbatch
  · intro hnodup
    have hleft : ((old.filter (Matches key batch comparable)).map update).Nodup := by
      apply Multiset.Nodup.of_map key
      rwa [hkeys]
    have hright : (batch.filter (Matching key old comparable)).Nodup :=
      (Multiset.Nodup.of_map key hbatch).filter _
    rw [hleft.ext hright]
    intro new
    rw [Multiset.mem_map, Multiset.mem_filter]
    constructor
    · rintro ⟨row, hrow, rfl⟩
      obtain ⟨hold, hmatches⟩ := Multiset.mem_filter.1 hrow
      obtain ⟨new, hnew, hkey, hupdate⟩ := h.update_of_matches hmatches
      rw [hupdate]
      exact ⟨hnew, row, hold, hkey.symm, hkey ▸ hmatches.2⟩
    · rintro ⟨hnew, row, hold, hkey, hcomparable⟩
      refine ⟨row, Multiset.mem_filter.2 ⟨hold, ?_, hcomparable⟩,
        h.matched row hcomparable new hnew hkey.symm⟩
      exact Multiset.mem_map.2 ⟨new, hnew, hkey.symm⟩

/-- Updating the matched rows and inserting the batch rows that match none is an upsert
exactly when every key of the batch that an old row has is comparable, and no two old rows
have the same one. -/
theorem merged_eq_upserted_iff (h : Updates key batch comparable update)
    (hbatch : (batch.map key).Nodup) :
    old.map update + batch.filter (fun new => ¬Matching key old comparable new) =
        upserted key old batch ↔
      (∀ row ∈ old, key row ∈ batch.map key → comparable (key row)) ∧
        ((old.filter (Matches key batch comparable)).map key).Nodup := by
  rw [← h.map_matched_eq_iff hbatch, ← filter_incomparable_eq_zero_iff, h.map_eq,
    filter_not_matches, upserted]
  set unmatched := old.filter fun row => key row ∉ batch.map key
  set incomparable := old.filter fun row => key row ∈ batch.map key ∧ ¬comparable (key row)
    with hincomparable
  set matched := (old.filter (Matches key batch comparable)).map update
  set matching := batch.filter (Matching key old comparable) with hmatching
  set others := batch.filter fun new => ¬Matching key old comparable new
  have hsplit : batch = matching + others := (Multiset.filter_add_not _ batch).symm
  have hcancel : unmatched + incomparable + matched + others = unmatched + batch ↔
      incomparable + matched = matching := by
    constructor
    · intro heq
      rw [hsplit, add_assoc, add_assoc, add_right_inj, ← add_assoc, add_left_inj] at heq
      exact heq
    · intro heq
      rw [hsplit, add_assoc unmatched, heq, add_assoc]
  rw [hcancel]
  constructor
  · intro heq
    have hzero : incomparable = 0 := by
      apply Multiset.eq_zero_of_forall_notMem
      intro row hrow
      have hmem : row ∈ matching := heq ▸ Multiset.mem_add.2 (Or.inl hrow)
      obtain ⟨-, hkey, hcomparable⟩ := Multiset.mem_filter.1 hrow
      obtain ⟨-, other, -, hother, hcomp⟩ := Multiset.mem_filter.1 hmem
      rw [hother] at hcomp
      exact hcomparable hcomp
    rw [hzero, zero_add] at heq
    exact ⟨hzero, heq⟩
  · rintro ⟨hzero, heq⟩
    rw [hzero, zero_add, heq]

theorem upserted_upserted : upserted key (upserted key old batch) batch =
    upserted key old batch := by
  have hbatch : batch.filter (fun row => key row ∉ batch.map key) = 0 := by
    rw [Multiset.filter_eq_nil]
    intro row hrow hnew
    exact hnew (Multiset.mem_map_of_mem key hrow)
  unfold upserted
  rw [Multiset.filter_add, Multiset.filter_filter, hbatch, add_zero]
  simp only [and_self]

theorem filter_mem_upserted :
    (upserted key old batch).filter (fun row => key row ∈ batch.map key) = batch := by
  have hold : (old.filter fun row => key row ∉ batch.map key).filter
      (fun row => key row ∈ batch.map key) = 0 := by
    rw [Multiset.filter_filter, Multiset.filter_eq_nil]
    rintro row - ⟨hmem, hnot⟩
    exact hnot hmem
  rw [upserted, Multiset.filter_add, hold, zero_add, Multiset.filter_eq_self]
  intro row hrow
  exact Multiset.mem_map_of_mem key hrow

end Upserts

/-! ## Rows under column names -/

/-- The letters of a name, as names are compared. -/
def foldCase (name : String) : List Char :=
  name.toList.map Char.toLower

section Rows

variable {V : Type*}
variable {row : List (Option V)}
variable {columns targets sources : List String} {name : String}

/-- The value of a row in a named column. -/
def columnValue (columns : List String) (row : List (Option V)) (name : String) : Option V :=
  row.getD (columns.findIdx fun column => foldCase column == foldCase name) none

/-- The values of a row in the named columns. -/
def columnTuple (columns names : List String) (row : List (Option V)) : List (Option V) :=
  names.map (columnValue columns row)

/-- A row of the second list of columns, each value moved to the column of its own name in the
first list. -/
def aligned (targets sources : List String) (row : List (Option V)) : List (Option V) :=
  targets.map (columnValue sources row)

theorem columnValue_congr {a b : String} (h : foldCase a = foldCase b) :
    columnValue columns row a = columnValue columns row b := by
  unfold columnValue
  rw [h]

theorem columnValue_map (h : foldCase name ∈ columns.map foldCase) (f : String → Option V) :
    ∃ column ∈ columns, foldCase column = foldCase name ∧
      columnValue columns (columns.map f) name = f column := by
  obtain ⟨column, hcolumn, hfold⟩ := List.mem_map.1 h
  have hlt : columns.findIdx (fun column => foldCase column == foldCase name) <
      columns.length := by
    apply List.findIdx_lt_length_of_exists
    exact ⟨column, hcolumn, beq_iff_eq.2 hfold⟩
  refine ⟨_, List.getElem_mem hlt, ?_, ?_⟩
  · exact beq_iff_eq.1 (List.findIdx_getElem (w := hlt))
  · unfold columnValue
    rw [← List.getElem_eq_getD (h := by rwa [List.length_map]), List.getElem_map]

theorem columnValue_aligned (h : foldCase name ∈ targets.map foldCase) :
    columnValue targets (aligned targets sources row) name = columnValue sources row name := by
  obtain ⟨column, -, hfold, hvalue⟩ := columnValue_map h (columnValue sources row)
  rw [aligned, hvalue]
  exact columnValue_congr hfold

theorem columnTuple_aligned {names : List String}
    (h : ∀ name ∈ names, foldCase name ∈ targets.map foldCase) :
    columnTuple targets names (aligned targets sources row) = columnTuple sources names row := by
  apply List.map_congr_left
  intro name hname
  exact columnValue_aligned (h name hname)

/-! ## Comparisons -/

variable [DecidableEq V]

/-- The truth of an equality, unknown when a side is null. -/
def valueEqual : Option V → Option V → Option Bool
  | some a, some b => some (decide (a = b))
  | _, _ => none

/-- The conjunction of two truth values. -/
def truthAnd : Option Bool → Option Bool → Option Bool
  | some false, _ => some false
  | _, some false => some false
  | some true, some true => some true
  | _, _ => none

def truthNot (a : Option Bool) : Option Bool :=
  a.map not

/-- The disjunction of two truth values. -/
def truthOr (a b : Option Bool) : Option Bool :=
  truthNot (truthAnd (truthNot a) (truthNot b))

/-- The disjunction of a list of truth values, false when there is none. -/
def truthAny (truths : List (Option Bool)) : Option Bool :=
  truths.foldr truthOr (some false)

/-- The truth of an equality of row values. -/
def tupleEqual : List (Option V) → List (Option V) → Option Bool
  | a :: as, b :: bs => truthAnd (valueEqual a b) (tupleEqual as bs)
  | [], [] => some true
  | _, _ => some false

def NoNull (tuple : List (Option V)) : Prop :=
  none ∉ tuple

instance (tuple : List (Option V)) : Decidable (NoNull tuple) :=
  inferInstanceAs (Decidable (none ∉ tuple))

omit [DecidableEq V] in
theorem truthAnd_eq_true_iff {a b : Option Bool} :
    truthAnd a b = some true ↔ a = some true ∧ b = some true := by
  rcases a with - | (_ | _) <;> rcases b with - | (_ | _) <;> decide

@[simp]
theorem truthAnd_some (a b : Bool) : truthAnd (some a) (some b) = some (a && b) := by
  cases a <;> cases b <;> rfl

@[simp]
theorem truthAnd_false_left (a : Option Bool) : truthAnd (some false) a = some false := by
  rcases a with - | (_ | _) <;> rfl

@[simp]
theorem truthNot_some (a : Bool) : truthNot (some a) = some (!a) :=
  rfl

@[simp]
theorem truthOr_some (a b : Bool) : truthOr (some a) (some b) = some (a || b) := by
  cases a <;> cases b <;> rfl

@[simp]
theorem truthAny_map_some {α : Type*} (l : List α) (p : α → Bool) :
    truthAny (l.map fun a => some (p a)) = some (l.any p) := by
  induction l with
  | nil => rfl
  | cons a l ih =>
    rw [List.any_cons, ← truthOr_some, ← ih]
    rfl

theorem valueEqual_eq_true_iff {a b : Option V} :
    valueEqual a b = some true ↔ a = b ∧ a ≠ none := by
  cases a <;> cases b <;> simp [valueEqual]

theorem tupleEqual_eq_true_iff {as bs : List (Option V)} :
    tupleEqual as bs = some true ↔ as = bs ∧ NoNull as := by
  induction as generalizing bs with
  | nil =>
    cases bs with
    | nil => simp [tupleEqual, NoNull]
    | cons b bs => simp [tupleEqual]
  | cons a as ih =>
    cases bs with
    | nil => simp [tupleEqual]
    | cons b bs =>
      rw [tupleEqual, truthAnd_eq_true_iff, valueEqual_eq_true_iff, ih]
      simp only [NoNull, List.mem_cons, List.cons.injEq]
      tauto

end Rows

/-! ## Tables and statements -/

/-- A table, or the rows a query returns.  The order of the rows does not matter. -/
@[ext]
structure SqlTable (V : Type*) where
  columns : List String
  rows : List (List (Option V))
  distinct : (columns.map foldCase).Nodup
  widths : ∀ row ∈ rows, row.length = columns.length

/-- A statement on a table, with the rows of the query it reads. -/
inductive Statement (V : Type*)
  | insertSelect (source : SqlTable V)
  /-- `DELETE FROM target WHERE (columns) IN (SELECT columns FROM source)`. -/
  | deleteIn (columns : List String) (source : SqlTable V)
  /-- `MERGE INTO target USING source ON` equal `on` columns, setting the `update` columns of a
  matched row and inserting the `insert` columns of a row that matches none. -/
  | mergeInto (source : SqlTable V) (on update insert : List String)

namespace SqlTable

variable {V : Type*}

def bag (table : SqlTable V) : Multiset (List (Option V)) :=
  table.rows

/-- The values of a row of the table in the named columns. -/
def tuple (table : SqlTable V) (names : List String) : List (Option V) → List (Option V) :=
  columnTuple table.columns names

/-- Every name is a column of the table. -/
def HasColumns (table : SqlTable V) (names : List String) : Prop :=
  ∀ name ∈ names, foldCase name ∈ table.columns.map foldCase

instance (table : SqlTable V) (names : List String) : Decidable (table.HasColumns names) :=
  inferInstanceAs (Decidable (∀ name ∈ names, _))

/-- Two tables with the same set of columns. -/
def SameColumns (target source : SqlTable V) : Prop :=
  ∀ name, name ∈ target.columns.map foldCase ↔ name ∈ source.columns.map foldCase

/-- A table with other rows of the same width. -/
def withRows (table : SqlTable V) (rows : List (List (Option V)))
    (h : ∀ row ∈ rows, row.length = table.columns.length) : SqlTable V :=
  { table with rows := rows, widths := h }

variable [DecidableEq V]

/-- The `ON` condition of a merge, and the condition of `IN` for one row of the sub-query. -/
def Pairs (target source : SqlTable V) (on : List String) (row new : List (Option V)) : Prop :=
  tupleEqual (target.tuple on row) (source.tuple on new) = some true

instance (target source : SqlTable V) (on : List String) (row new : List (Option V)) :
    Decidable (Pairs target source on row new) :=
  inferInstanceAs (Decidable (_ = _))

/-- The source rows a target row matches. -/
def pairedWith (target source : SqlTable V) (on : List String) (row : List (Option V)) :
    List (List (Option V)) :=
  source.rows.filter fun new => Pairs target source on row new

/-- The rows of the table that match no row of the source. -/
def unpaired (target source : SqlTable V) (on : List String) : List (List (Option V)) :=
  target.rows.filter fun row => ¬∃ new ∈ source.rows, Pairs target source on row new

def Named (names : List String) (column : String) : Prop :=
  ∃ name ∈ names, foldCase name = foldCase column

instance (names : List String) (column : String) : Decidable (Named names column) :=
  inferInstanceAs (Decidable (∃ name ∈ names, _))

def updatedRow (target source : SqlTable V) (on update : List String)
    (row : List (Option V)) : List (Option V) :=
  match pairedWith target source on row with
  | [] => row
  | new :: _ => target.columns.map fun column =>
    if Named update column then columnValue source.columns new column
    else columnValue target.columns row column

def insertedRow (target source : SqlTable V) (insert : List String)
    (new : List (Option V)) : List (Option V) :=
  target.columns.map fun column =>
    if Named insert column then columnValue source.columns new column else none

/-- The rows of the table after a merge. -/
def mergedRows (target source : SqlTable V) (on update insert : List String) :
    List (List (Option V)) :=
  target.rows.map (updatedRow target source on update) ++
    (source.rows.filter fun new => ¬∃ row ∈ target.rows, Pairs target source on row new).map
      (insertedRow target source insert)

omit [DecidableEq V] in
theorem widths_append {target source : SqlTable V}
    (h : source.columns.length = target.columns.length) :
    ∀ row ∈ target.rows ++ source.rows, row.length = target.columns.length := by
  intro row hrow
  rcases List.mem_append.1 hrow with hold | hnew
  · exact target.widths row hold
  · rw [source.widths row hnew, h]

theorem widths_unpaired {target source : SqlTable V} {on : List String} :
    ∀ row ∈ unpaired target source on, row.length = target.columns.length := by
  intro row hrow
  exact target.widths row (List.mem_of_mem_filter hrow)

theorem widths_mergedRows {target source : SqlTable V} {on update insert : List String} :
    ∀ row ∈ mergedRows target source on update insert, row.length = target.columns.length := by
  intro row hrow
  rcases List.mem_append.1 hrow with hold | hnew
  · obtain ⟨old, hmem, rfl⟩ := List.mem_map.1 hold
    unfold updatedRow
    split
    · exact target.widths old hmem
    · exact List.length_map ..
  · obtain ⟨new, -, rfl⟩ := List.mem_map.1 hnew
    exact List.length_map ..

end SqlTable

open SqlTable in
/-- The table a statement leaves, or `none` when the statement fails.  A merge that updates fails
when a target row matches more than one source row. -/
def Statement.run {V : Type*} [DecidableEq V] (target : SqlTable V) :
    Statement V → Option (SqlTable V)
  | .insertSelect source =>
    if h : source.columns.length = target.columns.length then
      some (target.withRows (target.rows ++ source.rows) (widths_append h))
    else none
  | .deleteIn columns source =>
    if columns ≠ [] ∧ target.HasColumns columns ∧ source.HasColumns columns then
      some (target.withRows (unpaired target source columns) widths_unpaired)
    else none
  | .mergeInto source on update insert =>
    if (on ≠ [] ∧ target.HasColumns on ∧ source.HasColumns on) ∧
        (target.HasColumns update ∧ source.HasColumns update) ∧
        (target.HasColumns insert ∧ source.HasColumns insert) ∧
        (update = [] ∨ ∀ row ∈ target.rows, (pairedWith target source on row).length ≤ 1) then
      some (target.withRows (mergedRows target source on update insert) widths_mergedRows)
    else none

/-! ## Statements as upserts -/

namespace SqlTable

variable {V : Type*} {target source : SqlTable V} {names : List String}
variable {after : SqlTable V} {row new : List (Option V)} {update : List String}

/-- The rows of the source, each value moved to the target's column of its own name. -/
def incoming (target source : SqlTable V) : Multiset (List (Option V)) :=
  source.bag.map (aligned target.columns source.columns)

theorem SameColumns.perm (h : SameColumns target source) :
    (target.columns.map foldCase).Perm (source.columns.map foldCase) :=
  (List.perm_ext_iff_of_nodup target.distinct source.distinct).2 h

theorem SameColumns.length_eq (h : SameColumns target source) :
    source.columns.length = target.columns.length := by
  have hlength := h.perm.length_eq
  rw [List.length_map, List.length_map] at hlength
  exact hlength.symm

theorem SameColumns.hasColumns_iff (h : SameColumns target source) :
    source.HasColumns names ↔ target.HasColumns names := by
  refine forall₂_congr fun name _ => ?_
  exact (h (foldCase name)).symm

theorem SameColumns.of_columns_eq (h : SameColumns target source)
    (hafter : after.columns = target.columns) : SameColumns after source := by
  unfold SameColumns
  rw [hafter]
  exact h

theorem HasColumns.of_columns_eq (h : target.HasColumns names)
    (hafter : after.columns = target.columns) : after.HasColumns names := by
  unfold HasColumns
  rw [hafter]
  exact h

theorem tuple_of_columns_eq (hafter : after.columns = target.columns) :
    after.tuple names = target.tuple names := by
  unfold tuple
  rw [hafter]

theorem incoming_of_columns_eq (hafter : after.columns = target.columns) :
    incoming after source = incoming target source := by
  unfold incoming
  rw [hafter]

theorem HasColumns.tuple_aligned (h : target.HasColumns names) (new : List (Option V)) :
    target.tuple names (aligned target.columns source.columns new) = source.tuple names new :=
  columnTuple_aligned h

theorem HasColumns.map_tuple_incoming (h : target.HasColumns names) :
    (incoming target source).map (target.tuple names) = source.bag.map (source.tuple names) := by
  rw [incoming, Multiset.map_map]
  apply Multiset.map_congr rfl
  intro new _
  exact h.tuple_aligned new

theorem mem_incoming :
    row ∈ incoming target source ↔
      ∃ new ∈ source.rows, aligned target.columns source.columns new = row :=
  Multiset.mem_map

variable [DecidableEq V]

/-- The target with the source's rows in the place of those with the same key. -/
def upsert (target source : SqlTable V) (names : List String) : Multiset (List (Option V)) :=
  upserted (target.tuple names) target.bag (incoming target source)

theorem pairs_iff :
    Pairs target source names row new ↔
      target.tuple names row = source.tuple names new ∧ NoNull (target.tuple names row) :=
  tupleEqual_eq_true_iff

theorem HasColumns.matches_iff (h : target.HasColumns names) :
    Matches (target.tuple names) (incoming target source) NoNull row ↔
      ∃ new ∈ source.rows, Pairs target source names row new := by
  rw [Matches, h.map_tuple_incoming, Multiset.mem_map]
  constructor
  · rintro ⟨⟨new, hnew, hkey⟩, hnull⟩
    exact ⟨new, hnew, pairs_iff.2 ⟨hkey.symm, hnull⟩⟩
  · rintro ⟨new, hnew, hpairs⟩
    obtain ⟨hkey, hnull⟩ := pairs_iff.1 hpairs
    exact ⟨⟨new, hnew, hkey.symm⟩, hnull⟩

theorem HasColumns.bag_unpaired (h : target.HasColumns names) :
    (unpaired target source names : Multiset (List (Option V))) =
      target.bag.filter fun row =>
        ¬Matches (target.tuple names) (incoming target source) NoNull row := by
  rw [unpaired, ← Multiset.filter_coe]
  apply Multiset.filter_congr
  intro row _
  rw [h.matches_iff]

/-- With distinct keys a target row is paired with the one source row that has its key. -/
theorem pairedWith_eq (hdistinct : (source.rows.map (source.tuple names)).Nodup)
    (hnew : new ∈ source.rows) (hpairs : Pairs target source names row new) :
    ∃ rest, pairedWith target source names row = new :: rest := by
  have hmem : new ∈ pairedWith target source names row :=
    List.mem_filter.2 ⟨hnew, decide_eq_true hpairs⟩
  cases hlist : pairedWith target source names row with
  | nil =>
    rw [hlist] at hmem
    cases hmem
  | cons first rest =>
    have hfirst : first ∈ pairedWith target source names row := by
      rw [hlist]
      exact List.mem_cons_self
    obtain ⟨hsource, hfirstPairs⟩ := List.mem_filter.1 hfirst
    have hkeys : source.tuple names first = source.tuple names new :=
      (pairs_iff.1 (of_decide_eq_true hfirstPairs)).1.symm.trans (pairs_iff.1 hpairs).1
    have hsame : first = new := List.inj_on_of_nodup_map hdistinct hsource hnew hkeys
    exact ⟨rest, by rw [hsame]⟩

theorem length_pairedWith_le (hdistinct : (source.rows.map (source.tuple names)).Nodup) :
    (pairedWith target source names row).length ≤ 1 := by
  have hnodup : ((pairedWith target source names row).map (source.tuple names)).Nodup :=
    hdistinct.sublist (List.filter_sublist.map _)
  have hsame : ∀ key ∈ (pairedWith target source names row).map (source.tuple names),
      key = target.tuple names row := by
    intro key hkey
    obtain ⟨new, hnew, rfl⟩ := List.mem_map.1 hkey
    exact (pairs_iff.1 (of_decide_eq_true (List.mem_filter.1 hnew).2)).1.symm
  have hle := (List.nodup_replicate.1 (List.eq_replicate_of_mem hsame ▸ hnodup))
  rwa [List.length_map] at hle

/-- Setting the columns that are not compared gives a matched row all the values of the source
row. -/
theorem updatedRow_of_pairs (hdistinct : (source.rows.map (source.tuple names)).Nodup)
    (hupdate : ∀ column ∈ target.columns, Named names column ∨ Named update column)
    (hnew : new ∈ source.rows) (hpairs : Pairs target source names row new) :
    updatedRow target source names update row = aligned target.columns source.columns new := by
  obtain ⟨rest, hlist⟩ := pairedWith_eq hdistinct hnew hpairs
  unfold updatedRow
  rw [hlist]
  apply List.map_congr_left
  intro column hcolumn
  split
  case isTrue => rfl
  case isFalse hnot =>
      -- a column that is not updated is a key, and the two rows agree on the keys
      obtain ⟨name, hname, hfold⟩ := (hupdate column hcolumn).resolve_right hnot
      have hkeys := (pairs_iff.1 hpairs).1
      have hvalue : columnValue target.columns row name = columnValue source.columns new name :=
        List.map_inj_left.1 hkeys name hname
      rw [columnValue_congr hfold.symm, hvalue]
      exact columnValue_congr hfold

/-- The rows of a merge that sets every column that is not compared. -/
theorem HasColumns.updates (h : target.HasColumns names)
    (hdistinct : (source.rows.map (source.tuple names)).Nodup)
    (hupdate : ∀ column ∈ target.columns, Named names column ∨ Named update column) :
    Updates (target.tuple names) (incoming target source) NoNull
      (updatedRow target source names update) where
  matched := by
    intro row hnull new hnew hkey
    obtain ⟨origin, horigin, rfl⟩ := mem_incoming.1 hnew
    rw [h.tuple_aligned] at hkey
    exact updatedRow_of_pairs hdistinct hupdate horigin (pairs_iff.2 ⟨hkey.symm, hnull⟩)
  unmatched := by
    intro row hrow
    have hnone : pairedWith target source names row = [] := by
      rw [pairedWith, List.filter_eq_nil_iff]
      intro new hnew hpairs
      exact hrow (h.matches_iff.2 ⟨new, hnew, of_decide_eq_true hpairs⟩)
    unfold updatedRow
    rw [hnone]

omit [DecidableEq V] in
theorem insertedRow_columns (new : List (Option V)) :
    insertedRow target source target.columns new = aligned target.columns source.columns new := by
  apply List.map_congr_left
  intro column hcolumn
  exact if_pos ⟨column, hcolumn, rfl⟩

theorem HasColumns.bag_mergedRows (h : target.HasColumns names) :
    (mergedRows target source names update target.columns : Multiset (List (Option V))) =
      target.bag.map (updatedRow target source names update) +
        (incoming target source).filter fun new =>
          ¬Matching (target.tuple names) target.bag NoNull new := by
  rw [mergedRows, ← Multiset.coe_add, ← Multiset.map_coe, ← Multiset.map_coe,
    ← Multiset.filter_coe, incoming, Multiset.filter_map]
  congr 1
  rw [Multiset.map_congr rfl fun new _ => insertedRow_columns new]
  congr 1
  apply Multiset.filter_congr
  intro new _
  have hmatching : Matching (target.tuple names) target.bag NoNull
      (aligned target.columns source.columns new) ↔
        ∃ row ∈ target.rows, Pairs target source names row new := by
    rw [Matching, h.tuple_aligned]
    refine exists_congr fun row => and_congr_right fun _ => ?_
    rw [pairs_iff]
  rw [Function.comp_apply, hmatching]

end SqlTable

/-! ## Runs of the statements -/

namespace SqlTable

variable {V : Type*} {target source : SqlTable V} {names : List String}

/-- Two tables with the same columns and the same bag of rows. -/
def Same (first second : SqlTable V) : Prop :=
  first.columns = second.columns ∧ first.bag = second.bag

variable [DecidableEq V]

theorem SameColumns.run_insertSelect (h : SameColumns target source) :
    ∃ after, (Statement.insertSelect source).run target = some after ∧
      after.columns = target.columns ∧ after.bag = target.bag + source.bag := by
  refine ⟨_, dif_pos h.length_eq, rfl, ?_⟩
  exact (Multiset.coe_add target.rows source.rows).symm

theorem SameColumns.run_deleteIn (h : SameColumns target source) (hnonempty : names ≠ [])
    (hnames : target.HasColumns names) :
    ∃ after, (Statement.deleteIn names source).run target = some after ∧
      after.columns = target.columns ∧
      after.bag = target.bag.filter fun row =>
        ¬Matches (target.tuple names) (incoming target source) NoNull row := by
  refine ⟨_, if_pos ⟨hnonempty, hnames, h.hasColumns_iff.2 hnames⟩, rfl, ?_⟩
  exact hnames.bag_unpaired

/-- A merge that sets and inserts every column of the target. -/
theorem SameColumns.run_mergeInto {update : List String} (h : SameColumns target source)
    (hnonempty : names ≠ []) (hnames : target.HasColumns names) (hupdate : target.HasColumns update)
    (hdistinct : (source.rows.map (source.tuple names)).Nodup) :
    ∃ after, (Statement.mergeInto source names update target.columns).run target = some after ∧
      after.columns = target.columns ∧
      after.bag = target.bag.map (updatedRow target source names update) +
        (incoming target source).filter fun new =>
          ¬Matching (target.tuple names) target.bag NoNull new := by
  have hall : target.HasColumns target.columns := by
    intro name hname
    exact List.mem_map_of_mem hname
  refine ⟨_, if_pos ⟨⟨hnonempty, hnames, h.hasColumns_iff.2 hnames⟩,
    ⟨hupdate, h.hasColumns_iff.2 hupdate⟩, ⟨hall, h.hasColumns_iff.2 hall⟩,
    Or.inr fun row _ => length_pairedWith_le hdistinct⟩, rfl, ?_⟩
  exact hnames.bag_mergedRows

end SqlTable
end PhloTransform.Library
