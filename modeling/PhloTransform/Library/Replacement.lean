import Mathlib.Algebra.Order.Sub.Basic
import Mathlib.Data.Multiset.OrderedMonoid
import PhloTransform.Library.SqlTable

/-!
# Replacements

A write replaces the rows of a table that meet a condition by a batch.  Statements on two
tables with the same rows are compared by what they replace: deleting and inserting is a
replacement, and so is a merge of distinct keys into rows with distinct keys.

Main results:

- Theorem `Replacement.Within.apply_eq`: when a replacement that does more leaves the same.
- Theorem `run_mergeInto_eq_apply`: when a merge is a replacement.
-/

namespace PhloTransform.Library

/-! ## Bags -/

/-- The rows that a write removes, and the rows that it inserts. -/
structure Replacement (α : Type*) where
  removes : α → Bool
  inserts : Multiset α

namespace Replacement

variable {α : Type*} [DecidableEq α] {old : Multiset α} {first second : Replacement α}

omit [DecidableEq α] in
def apply (write : Replacement α) (old : Multiset α) : Multiset α :=
  old.filter (fun row => ¬ write.removes row) + write.inserts

/-- One write removes and inserts no more than another, and the rows that only the other one
removes are those that only it inserts. -/
structure Within (first second : Replacement α) (old : Multiset α) : Prop where
  removes : ∀ row ∈ old, first.removes row → second.removes row
  inserts : first.inserts ≤ second.inserts
  rest : old.filter (fun row => second.removes row ∧ ¬ first.removes row) =
    second.inserts - first.inserts

theorem Within.apply_eq (h : first.Within second old) : first.apply old = second.apply old := by
  have hsplit : old.filter (fun row => ¬ first.removes row) =
      old.filter (fun row => ¬ second.removes row) + (second.inserts - first.inserts) := by
    rw [← h.rest, ← Multiset.filter_add_not (fun row => ¬ second.removes row)
      (old.filter fun row => ¬ first.removes row), Multiset.filter_filter,
      Multiset.filter_filter]
    congr 1
    · apply Multiset.filter_congr
      intro row hrow
      exact and_iff_left_of_imp fun hnot hfirst => hnot (h.removes row hrow hfirst)
    · apply Multiset.filter_congr
      intro row _
      rw [not_not]
  rw [apply, apply, hsplit, add_assoc, tsub_add_cancel_of_le h.inserts]

theorem within_of_removes_nothing (hfirst : ∀ row ∈ old, ¬ first.removes row)
    (hsecond : ∀ row ∈ old, ¬ second.removes row) (hinserts : first.inserts = second.inserts) :
    first.Within second old where
  removes := fun row hrow hremoves => absurd hremoves (hfirst row hrow)
  inserts := hinserts.le
  rest := by
    rw [hinserts, tsub_self, Multiset.filter_eq_nil]
    exact fun row hrow hremoves => hsecond row hrow hremoves.1

end Replacement

/-! ## Rows in their own columns -/

section Rows

variable {V : Type*}

theorem aligned_self {columns : List String} (hdistinct : (columns.map foldCase).Nodup)
    {row : List (Option V)} (hwidth : row.length = columns.length) :
    aligned columns columns row = row := by
  refine List.ext_getElem (by simp [aligned, hwidth]) fun i hi hi' => ?_
  have hcolumn : i < columns.length := hwidth ▸ hi'
  have hfind : columns.findIdx (fun column => foldCase column == foldCase columns[i]) = i := by
    rw [List.findIdx_eq hcolumn]
    refine ⟨beq_self_eq_true _, fun j hj => beq_false_of_ne fun hfold => ?_⟩
    have hpair := List.pairwise_iff_getElem.1 hdistinct j i
      (by rw [List.length_map]; omega) (by rwa [List.length_map]) hj
    rw [List.getElem_map, List.getElem_map] at hpair
    exact hpair hfold
  simp only [aligned, List.getElem_map, columnValue, hfind]
  rw [← List.getElem_eq_getD]

end Rows

namespace SqlTable

variable {V : Type*} {first second source target : SqlTable V} {names : List String}
variable {update : List String}

theorem incoming_of_columns (h : source.columns = first.columns) :
    incoming first source = source.bag := by
  have hrow : ∀ row ∈ source.bag, aligned first.columns source.columns row = row := by
    intro row hrow
    rw [← h]
    exact aligned_self source.distinct (source.widths row hrow)
  rw [incoming, Multiset.map_congr rfl hrow, Multiset.map_id']

theorem sameColumns_of_columns (h : source.columns = first.columns) : SameColumns first source := by
  intro name
  rw [h]

theorem Same.refl (table : SqlTable V) : Same table table :=
  ⟨rfl, rfl⟩

theorem Same.mem_rows (h : Same first second) {row : List (Option V)} :
    row ∈ second.rows ↔ row ∈ first.rows := by
  have hmem : row ∈ second.bag ↔ row ∈ first.bag := by rw [h.2]
  exact hmem

def keep (table : SqlTable V) (p : List (Option V) → Bool) : SqlTable V :=
  table.withRows (table.rows.filter p) fun row hrow =>
    table.widths row (List.mem_of_mem_filter hrow)

theorem bag_keep (table : SqlTable V) (p : List (Option V) → Bool) :
    (table.keep p).bag = table.bag.filter fun row => p row := by
  simp only [bag, keep, withRows, Multiset.filter_coe, Bool.decide_eq_true]

variable [DecidableEq V]

theorem columns_run {statement : Statement V} {after : SqlTable V}
    (h : statement.run target = some after) : after.columns = target.columns := by
  unfold Statement.run at h
  split at h <;> split at h
  all_goals first
    | cases h; rfl
    | cases h

/-! ## Statements as replacements -/

/-- The rows with a key of the source are replaced by the source. -/
def replacing (target source : SqlTable V) (names : List String) :
    Replacement (List (Option V)) where
  removes row := decide (Matches (target.tuple names) (incoming target source) NoNull row)
  inserts := source.bag

@[simp]
theorem inserts_replacing : (replacing target source names).inserts = source.bag :=
  rfl

theorem replacing_congr (hcolumns : first.columns = second.columns)
    (hsource : source.columns = first.columns) :
    replacing first source names = replacing second source names := by
  unfold replacing
  rw [tuple_of_columns_eq hcolumns, incoming_of_columns hsource,
    incoming_of_columns (hsource.trans hcolumns)]

/-- The keys of the source are distinct, and so are those of the rows that have one of them. -/
structure Merges (target source : SqlTable V) (names : List String) : Prop where
  distinct : (source.rows.map (source.tuple names)).Nodup
  unrepeated : ((target.bag.filter
    (Matches (target.tuple names) (incoming target source) NoNull)).map
      (target.tuple names)).Nodup

/-- A merge of distinct keys replaces the rows that have one of them. -/
theorem run_mergeInto_eq_apply (hcolumns : source.columns = target.columns) (hnonempty : names ≠ [])
    (hnames : target.HasColumns names) (hupdate : target.HasColumns update)
    (hall : ∀ column ∈ target.columns, Named names column ∨ Named update column)
    (h : Merges target source names) :
    ∃ after, (Statement.mergeInto source names update target.columns).run target = some after ∧
      after.columns = target.columns ∧
      after.bag = (replacing target source names).apply target.bag := by
  obtain ⟨after, hrun, hafter, hbag⟩ := (sameColumns_of_columns hcolumns).run_mergeInto
    hnonempty hnames hupdate h.distinct
  refine ⟨after, hrun, hafter, ?_⟩
  have hkeys : ((incoming target source).map (target.tuple names)).Nodup := by
    rw [hnames.map_tuple_incoming]
    exact Multiset.coe_nodup.2 h.distinct
  have hupdates := hnames.updates h.distinct hall
  rw [hbag, hupdates.map_eq, (hupdates.map_matched_eq_iff hkeys).2 h.unrepeated, add_assoc,
    Multiset.filter_add_not, incoming_of_columns hcolumns, Replacement.apply, replacing]
  congr 1
  apply Multiset.filter_congr
  intro row _
  rw [decide_eq_true_iff, incoming_of_columns hcolumns]

theorem Merges.congr (h : Merges first source names) (hcolumns : second.columns = first.columns)
    (hbag : second.bag = first.bag) : Merges second source names where
  distinct := h.distinct
  unrepeated := by
    rw [tuple_of_columns_eq hcolumns, incoming_of_columns_eq hcolumns, hbag]
    exact h.unrepeated

/-! ## Merges with repeated keys -/

theorem Same.pairedWith_eq (h : Same first second) (row : List (Option V)) :
    pairedWith second source names row = pairedWith first source names row := by
  unfold pairedWith
  apply List.filter_congr
  intro new _
  rw [decide_eq_decide, pairs_iff, pairs_iff, tuple_of_columns_eq h.1.symm]

theorem Same.updatedRow_eq (h : Same first second) (update : List String)
    (row : List (Option V)) :
    updatedRow second source names update row = updatedRow first source names update row := by
  unfold updatedRow
  rw [h.pairedWith_eq, h.1]

/-- Setting the columns that are compared changes nothing. -/
theorem updatedRow_columns
    (hall : ∀ column ∈ first.columns, Named names column ∨ Named update column)
    (row : List (Option V)) :
    updatedRow first source names first.columns row = updatedRow first source names update row := by
  unfold updatedRow
  cases hpaired : pairedWith first source names row with
  | nil => rfl
  | cons new rest =>
    have hpairs : Pairs first source names row new := by
      have hmem : new ∈ pairedWith first source names row := by
        rw [hpaired]
        exact List.mem_cons_self
      exact of_decide_eq_true (List.mem_filter.1 hmem).2
    apply List.map_congr_left
    intro column hcolumn
    rw [if_pos ⟨column, hcolumn, rfl⟩]
    split
    case isTrue => rfl
    case isFalse hnot =>
        obtain ⟨name, hname, hfold⟩ := (hall column hcolumn).resolve_right hnot
        have hvalue : columnValue first.columns row name =
            columnValue source.columns new name :=
          List.map_inj_left.1 (pairs_iff.1 hpairs).1 name hname
        rw [columnValue_congr hfold.symm, ← hvalue]
        exact columnValue_congr hfold

/-- A merge that sets every column, and a merge into the same rows that sets the columns that
are not compared. -/
theorem Same.run_mergeInto (h : Same first second) (hcolumns : source.columns = first.columns)
    (hnonempty : names ≠ []) (hnames : first.HasColumns names)
    (hall : ∀ column ∈ first.columns, Named names column ∨ Named update column)
    (hsome : update ≠ []) (hupdate : first.HasColumns update) :
    Option.Rel Same ((Statement.mergeInto source names first.columns first.columns).run first)
      ((Statement.mergeInto source names update second.columns).run second) := by
  have hevery : first.HasColumns first.columns := fun name hname => List.mem_map_of_mem hname
  have hnone : first.columns ≠ [] := by
    obtain ⟨name, hname⟩ := List.exists_mem_of_ne_nil names hnonempty
    obtain ⟨column, hcolumn, -⟩ := List.mem_map.1 (hnames name hname)
    exact List.ne_nil_of_mem hcolumn
  have hsource := sameColumns_of_columns hcolumns
  have hsource' := hsource.of_columns_eq h.1.symm
  have hguard : (∀ row ∈ second.rows, (pairedWith second source names row).length ≤ 1) ↔
      ∀ row ∈ first.rows, (pairedWith first source names row).length ≤ 1 := by
    simp only [h.mem_rows, h.pairedWith_eq]
  by_cases hpaired : ∀ row ∈ first.rows, (pairedWith first source names row).length ≤ 1
  · have hnames' := hnames.of_columns_eq h.1.symm
    have hupdate' := hupdate.of_columns_eq h.1.symm
    have hevery' : second.HasColumns second.columns := fun _ hname => List.mem_map_of_mem hname
    rw [Statement.run, if_pos ⟨⟨hnonempty, hnames, hsource.hasColumns_iff.2 hnames⟩,
        ⟨hevery, hsource.hasColumns_iff.2 hevery⟩, ⟨hevery, hsource.hasColumns_iff.2 hevery⟩,
        .inr hpaired⟩,
      Statement.run, if_pos ⟨⟨hnonempty, hnames', hsource'.hasColumns_iff.2 hnames'⟩,
        ⟨hupdate', hsource'.hasColumns_iff.2 hupdate'⟩,
        ⟨hevery', hsource'.hasColumns_iff.2 hevery'⟩, .inr (hguard.2 hpaired)⟩]
    refine .some ⟨h.1, ?_⟩
    refine hnames.bag_mergedRows.trans (Eq.trans ?_ hnames'.bag_mergedRows.symm)
    rw [tuple_of_columns_eq h.1.symm, ← h.2, incoming_of_columns_eq h.1.symm]
    congr 1
    apply Multiset.map_congr rfl
    intro row _
    rw [h.updatedRow_eq]
    exact updatedRow_columns hall row
  · rw [Statement.run, if_neg fun hrun => hpaired (hrun.2.2.2.resolve_left hnone),
      Statement.run, if_neg fun hrun => hpaired (hguard.1 (hrun.2.2.2.resolve_left hsome))]
    exact .none

end SqlTable
end PhloTransform.Library
