import PhloTransform.Library.SqlTable
import Mathlib.Data.List.Dedup

/-!
# Query results under a condition

Rows give each column a value or NULL, and queries return values under column names.  A
condition reads some columns; it can be evaluated over a result in which each of them is found
once, and selects the rows of which it is true.  Rows are grouped by a key.

Main results:

- Theorem `Condition.selects_map`: over all columns a condition selects the rows of which it
  holds.
- Theorem `Probes.agree_iff`: when a report and a verdict on a count agree everywhere.
-/

namespace PhloTransform.Library

/-! ## Rows and conditions -/

/-- The value of a row in each column, by the folded name of the column. -/
abbrev Row (V : Type*) := List Char → Option V

/-- A condition of SQL: the columns it reads, and its truth, which may be unknown. -/
structure Condition (V : Type*) where
  reads : List (List Char)
  truth : Row V → Option Bool
  congr : ∀ row row', (∀ name ∈ reads, row name = row' name) → truth row = truth row'

/-- What a query returns. -/
structure Result (V : Type*) where
  columns : List (List Char)
  rows : List (List (Option V))

section Results

variable {V : Type*} {columns : List (List Char)} {row : Row V}
variable {c : Condition V}

def Condition.holds (c : Condition V) (row : Row V) : Bool :=
  decide (c.truth row = some true)

/-- Values under the names of their columns. -/
def named (columns : List (List Char)) (values : List (Option V)) : Row V :=
  fun name => (values[columns.idxOf name]?).join

/-- The condition is true of values under column names, each of which it reads being found
once; it selects nothing where it cannot be evaluated. -/
def Condition.selects (c : Condition V) (columns : List (List Char))
    (values : List (Option V)) : Bool :=
  decide (∀ name ∈ c.reads, columns.count name = 1) && c.holds (named columns values)

/-- `select * from (result) where filter`. -/
def Result.filtered (filter : Option (Condition V)) (result : Result V) : Result V where
  columns := result.columns
  rows := result.rows.filter fun values => filter.all fun c => c.selects result.columns values

/-- `select *`. -/
def selectAll (columns : List (List Char)) (rows : List (Row V)) : Result V where
  columns := columns
  rows := rows.map fun row => columns.map row

theorem named_map {name : List Char} (h : name ∈ columns) :
    named columns (columns.map row) name = row name := by
  have hlt := List.idxOf_lt_length_of_mem h
  rw [named, List.getElem?_map, List.getElem?_eq_getElem hlt, List.getElem_idxOf hlt]
  rfl

theorem map_named (hcolumns : columns.Nodup) {values : List (Option V)}
    (hlength : values.length = columns.length) : columns.map (named columns values) = values := by
  refine List.ext_getElem (by rw [List.length_map, hlength]) fun i hi hi' => ?_
  rw [List.length_map] at hi
  rw [List.getElem_map, named, hcolumns.idxOf_getElem i hi, List.getElem?_eq_getElem hi']
  rfl

theorem filtered_ne_nil_iff {filter : Option (Condition V)} {result : Result V} :
    (result.filtered filter).rows ≠ [] ↔
      ∃ values ∈ result.rows, filter.all fun c => c.selects result.columns values := by
  rw [Result.filtered, ne_eq, List.filter_eq_nil_iff]
  push Not
  rfl

theorem Condition.holds_congr {row row' : Row V} (h : ∀ name ∈ c.reads, row name = row' name) :
    c.holds row = c.holds row' := by
  unfold holds
  rw [c.congr row row' h]

/-- Over all columns of a table a condition selects the rows of which it holds. -/
theorem Condition.selects_map (hcolumns : columns.Nodup) (hreads : ∀ name ∈ c.reads, name ∈ columns)
    : c.selects columns (columns.map row) = c.holds row := by
  have hfound : ∀ name ∈ c.reads, columns.count name = 1 :=
    fun name hname => List.count_eq_one_of_mem hcolumns (hreads name hname)
  rw [selects, decide_eq_true hfound, Bool.true_and]
  exact holds_congr fun name hname => named_map (hreads name hname)

end Results

/-! ## Groups -/

section Groups

variable {α κ : Type*} [DecidableEq κ] {key : α → κ} {rows : List α}
variable {k : κ}

/-- The keys of a `group by`. -/
def groupedKeys (key : α → κ) (rows : List α) : List κ :=
  (rows.map key).dedup

def groupSize (key : α → κ) (rows : List α) (k : κ) : Nat :=
  (rows.map key).count k

theorem mem_groupedKeys : k ∈ groupedKeys key rows ↔ ∃ row ∈ rows, key row = k := by
  rw [groupedKeys, List.mem_dedup, List.mem_map]

theorem groupedKeys_replicate (n : Nat) (row : α) :
    groupedKeys key (List.replicate (n + 1) row) = [key row] := by
  induction n with
  | zero => simp [groupedKeys]
  | succ n ih =>
    unfold groupedKeys at ih ⊢
    rw [List.replicate_succ, List.map_cons, List.dedup_cons_of_mem, ih]
    simp

theorem groupSize_replicate (n : Nat) (row : α) :
    groupSize key (List.replicate n row) (key row) = n := by
  simp [groupSize]

theorem groupSize_filter {p : α → Bool} (h : ∀ row ∈ rows, key row = k → p row) :
    groupSize key (rows.filter p) k = groupSize key rows k := by
  induction rows with
  | nil => rfl
  | cons row rows ih =>
    have hrest := ih fun other hother => h other (List.mem_cons_of_mem row hother)
    unfold groupSize at hrest ⊢
    by_cases hrow : p row
    · rw [List.filter_cons_of_pos hrow, List.map_cons, List.map_cons, List.count_cons,
        List.count_cons, hrest]
    · have hkey : key row ≠ k := fun hkey => hrow (h row List.mem_cons_self hkey)
      rw [List.filter_cons_of_neg hrow, hrest, List.map_cons, List.count_cons_of_ne hkey]

theorem groupSize_filter_le (p : α → Bool) (k : κ) :
    groupSize key (rows.filter p) k ≤ groupSize key rows k :=
  List.Sublist.count_le k (List.filter_sublist.map key)

/-- The keys that more than one row has. -/
def repeatedKeys (key : α → κ) (rows : List α) : List κ :=
  (groupedKeys key rows).filter fun k => decide (1 < groupSize key rows k)

theorem groupSize_pos : 0 < groupSize key rows k ↔ ∃ row ∈ rows, key row = k := by
  rw [groupSize, List.count_pos_iff, List.mem_map]

theorem mem_repeatedKeys : k ∈ repeatedKeys key rows ↔ 1 < groupSize key rows k := by
  rw [repeatedKeys, List.mem_filter, decide_eq_true_iff, mem_groupedKeys, and_iff_right_iff_imp]
  intro h
  exact groupSize_pos.1 (Nat.lt_of_succ_lt h)

theorem repeatedKeys_replicate (n : Nat) (row : α) :
    repeatedKeys key (List.replicate (n + 2) row) = [key row] := by
  rw [repeatedKeys, groupedKeys_replicate, List.filter_cons_of_pos, List.filter_nil]
  rw [groupSize_replicate]
  simp

theorem repeatedKeys_ne_nil_iff :
    repeatedKeys key rows ≠ [] ↔ ∃ row ∈ rows, 1 < groupSize key rows (key row) := by
  rw [ne_eq, List.eq_nil_iff_forall_not_mem]
  simp only [mem_repeatedKeys]
  push Not
  constructor
  · rintro ⟨k, hk⟩
    obtain ⟨row, hrow, rfl⟩ := groupSize_pos.1 (Nat.lt_of_succ_lt hk)
    exact ⟨row, hrow, hk⟩
  · rintro ⟨row, -, hrow⟩
    exact ⟨key row, hrow⟩

end Groups

theorem mem_diff_of_pair {α : Type*} [BEq α] [LawfulBEq α] (a b : α) : a ∈ [a, a].diff [b] := by
  rw [← List.count_pos_iff, List.count_diff, List.count_cons_self, List.count_singleton_self]
  exact Nat.sub_pos_of_lt (Nat.lt_succ_of_le (List.count_le_length))

/-! ## Reports and verdicts -/

/-- A check that reports on inputs, and a count with a verdict, at probes: on a probe the count
is at most one. -/
structure Probes {Input ι : Type*} (reports : Input → Prop) (count : Input → Nat)
    (nothing : Input) (probe : ι → Input) (reported counted : ι → Prop) : Prop where
  not_reports : ¬ reports nothing
  count_nothing : count nothing = 0
  reports_probe : ∀ i, reports (probe i) ↔ reported i
  count_probe : ∀ i, counted i → count (probe i) = 1
  count_probe_not : ∀ i, ¬ counted i → count (probe i) = 0
  sound : (∀ i, reported i ↔ counted i) → ∀ input, reports input ↔ count input ≠ 0
  silent : (∀ i, ¬ reported i) → ∀ input, ¬ reports input

/-- A report that is not determined by the count agrees with a verdict only where neither ever
speaks. -/
theorem agree_iff_of_conflict {Input : Type*} {reports : Input → Prop} {count : Input → Nat}
    {silent : Prop} (hsilent : silent → ∀ input, ¬ reports input)
    (hconflict : ¬ silent → ∃ input other, count input = count other ∧ reports input ∧
      ¬ reports other) (verdict : Nat → Bool) :
    (∀ input, reports input ↔ verdict (count input)) ↔
      (∀ input, ¬ verdict (count input)) ∧ silent := by
  constructor
  · intro hagree
    have hquiet : silent := by
      by_contra hloud
      obtain ⟨input, other, hcount, hreports, hnot⟩ := hconflict hloud
      have hverdict := (hagree input).1 hreports
      rw [hcount] at hverdict
      exact hnot ((hagree other).2 hverdict)
    exact ⟨fun input hverdict => hsilent hquiet input ((hagree input).2 hverdict), hquiet⟩
  · rintro ⟨hnever, hquiet⟩ input
    exact iff_of_false (hsilent hquiet input) (hnever input)

/-- A report and a verdict agree just when the report follows the count and the verdict is that
it is positive, or neither ever speaks. -/
theorem Probes.agree_iff {Input ι : Type*} {reports : Input → Prop} {count : Input → Nat}
    {nothing : Input} {probe : ι → Input} {reported counted : ι → Prop}
    (h : Probes reports count nothing probe reported counted) (verdict : Nat → Bool) :
    (∀ input, reports input ↔ verdict (count input)) ↔
      (∀ input, verdict (count input) ↔ count input ≠ 0) ∧ (∀ i, reported i ↔ counted i) ∨
        (∀ input, ¬ verdict (count input)) ∧ ∀ i, ¬ reported i := by
  constructor
  · intro hagree
    have hzero : ¬ verdict 0 := by
      rw [← h.count_nothing, ← hagree]
      exact h.not_reports
    have hcounted : ∀ i, reported i → counted i := by
      intro i hreported
      by_contra hnot
      have hverdict := (hagree (probe i)).1 ((h.reports_probe i).2 hreported)
      rw [h.count_probe_not i hnot] at hverdict
      exact hzero hverdict
    by_cases hone : verdict 1
    · have hreported : ∀ i, reported i ↔ counted i := by
        refine fun i => ⟨hcounted i, fun hi => (h.reports_probe i).1 ((hagree (probe i)).2 ?_)⟩
        rwa [h.count_probe i hi]
      exact .inl ⟨fun input => (hagree input).symm.trans (h.sound hreported input), hreported⟩
    · have hsilent : ∀ i, ¬ reported i := by
        intro i hreported
        have hverdict := (hagree (probe i)).1 ((h.reports_probe i).2 hreported)
        rw [h.count_probe i (hcounted i hreported)] at hverdict
        exact hone hverdict
      exact .inr ⟨fun input hverdict => h.silent hsilent input ((hagree input).2 hverdict), hsilent⟩
  · rintro (⟨hverdict, hreported⟩ | ⟨hnever, hsilent⟩) input
    · exact (h.sound hreported input).trans (hverdict input).symm
    · exact iff_of_false (h.silent hsilent input) (hnever input)

end PhloTransform.Library
