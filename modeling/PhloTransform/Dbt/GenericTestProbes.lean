import PhloTransform.Dbt.GenericTests

/-!
# Small tables that tell generic tests apart

One row tells tests on rows apart, copies of one row tests on repeated keys, and one row with a
value tests for a constant.

Main results:

- Theorem `probes_rows`, `probes_repeated`, `probes_constant`: the tables that tell the tests
  apart, by the form of the test.
-/

namespace PhloTransform.Dbt

open Library

namespace GenericTest

variable {V : Type*} [DecidableEq V] (d : Dialect V) (t : GenericTest V)
variable {filter : Option (Condition V)}
variable {names : List String}

/-! ## What a file returns and dbt counts -/

section

omit [DecidableEq V]

def fileFilter : Option (Condition V) :=
  if t.ofSource then none else t.filter

/-- The filter of the file selects values under column names. -/
def fileKeeps (columns : List (List Char)) (values : List (Option V)) : Bool :=
  t.fileFilter.all fun c => c.selects columns values

/-- The filter of the file selects a group of so many rows. -/
def groupKept (names : List String) (row : Row V) (n : Nat) : Bool :=
  t.fileKeeps (names.map foldCase ++ ["n".toList]) (tupleOf names row ++ [some (d.count n)])

/-- The filter of the file selects a row of a comparison. -/
def comparisonKept (names : Option (List String)) (row : Row V) : Bool :=
  match names with
  | some names => t.fileKeeps (names.map foldCase) (tupleOf names row)
  | none => decide (t.otherColumns.length = t.columns.length) &&
      t.fileKeeps t.columns (t.columns.map row)

/-- The filter of the file selects two numbers of rows. -/
def rowcountsKept (here there : Nat) : Bool :=
  t.fileKeeps ["here".toList, "there".toList] [some (d.count here), some (d.count there)]

end

def reported (query : NativeQuery) (other : List (Row V)) (row : Row V) : Prop :=
  query.flags d t.columns other row ∧ t.fileKeeps t.columns (t.columns.map row)

def counted (other : List (Row V)) (row : Row V) : Prop :=
  t.kept row ∧ t.dbtFlags d other row

variable {d t}

/-! ## Rows -/

omit [DecidableEq V] in
theorem fileKeeps_map (row : Row V) :
    t.fileKeeps t.columns (t.columns.map row) = (t.ofSource || t.kept row) := by
  unfold fileKeeps fileFilter kept
  cases hsource : t.ofSource with
  | true => rfl
  | false =>
    cases hfilter : t.filter with
    | none => rfl
    | some c => exact c.selects_map t.columns_nodup (t.filter_reads c hfilter)

omit [DecidableEq V] in
theorem filter_selectAll_ne_nil {flag : Row V → Bool} {rows : List (Row V)} :
    ((selectAll t.columns (rows.filter flag)).filtered filter).rows ≠ [] ↔
      ∃ row ∈ rows, flag row ∧ filter.all fun c => c.selects t.columns (t.columns.map row) := by
  rw [filtered_ne_nil_iff]
  simp only [selectAll, List.mem_map, List.mem_filter]
  constructor
  · rintro ⟨values, ⟨row, ⟨hrow, hflag⟩, rfl⟩, hselects⟩
    exact ⟨row, hrow, hflag, hselects⟩
  · rintro ⟨row, hrow, hflag, hselects⟩
    exact ⟨_, ⟨row, ⟨hrow, hflag⟩, rfl⟩, hselects⟩

/-- A test on rows counts one for a row that it selects, and nothing without one. -/
theorem failures_eq_zero_of_isRowwise (hkind : t.kind.isRowwise = true) (s : TestTables V) :
    t.failures d s = 0 ↔ ∀ row ∈ s.model, ¬ t.counted d s.other row := by
  have hrows : t.failures d s = 0 ↔
      (s.model.filter t.kept).filter (fun row => t.dbtFlags d s.other row) = [] := by
    cases hcases : t.kind with
    | acceptedValues values quote =>
      simp [failures, hcases, groupedKeys]
    | notNull | relationships _ | expressionIsTrue _ | acceptedRange _ _ _ | notEmptyString _ =>
      simp only [failures, hcases, List.length_eq_zero_iff]
    | unique | notConstant _ | uniqueCombinationOfColumns _ | equality _ _ | equalRowcount _
    | other _ =>
      rw [hcases] at hkind
      cases hkind
  rw [hrows, List.filter_eq_nil_iff]
  simp only [List.mem_filter, counted]
  exact ⟨fun h row hrow hcounted => h row ⟨hrow, hcounted.1⟩ hcounted.2,
    fun h row hrow hflags => h row hrow.1 ⟨hrow.2, hflags⟩⟩

theorem failures_singleton (hkind : t.kind.isRowwise = true) {other : List (Row V)} {row : Row V}
    (h : t.counted d other row) : t.failures d ⟨[row], other⟩ = 1 := by
  have hkept : [row].filter t.kept = [row] := List.filter_cons_of_pos h.1
  have hflags : [row].filter (fun row => t.dbtFlags d other row) = [row] :=
    List.filter_cons_of_pos h.2
  cases hcases : t.kind with
  | acceptedValues values quote =>
    simp only [failures, hcases, hkept, hflags]
    rfl
  | notNull | relationships _ | expressionIsTrue _ | acceptedRange _ _ _ | notEmptyString _ =>
    simp only [failures, hcases, hkept, hflags]
    rfl
  | unique | notConstant _ | uniqueCombinationOfColumns _ | equality _ _ | equalRowcount _
  | other _ =>
    rw [hcases] at hkind
    cases hkind

/-- Tests on rows are told apart from their native forms by single rows. -/
theorem probes_rows (flag : List (Row V) → Row V → Prop) (hkind : t.kind.isRowwise = true)
    {reports : TestTables V → Prop}
    (hreports : ∀ s, reports s ↔ ∃ row ∈ s.model, flag s.other row) :
    Probes reports (t.failures d) ⟨[], []⟩ (fun i : List (Row V) × Row V => ⟨[i.2], i.1⟩)
      (fun i => flag i.1 i.2) (fun i => t.counted d i.1 i.2) where
  not_reports := by simp [hreports]
  count_nothing := by simp [failures_eq_zero_of_isRowwise hkind]
  reports_probe := by simp [hreports]
  count_probe := fun i hi => failures_singleton hkind hi
  count_probe_not := by simp [failures_eq_zero_of_isRowwise hkind]
  sound := by
    intro hsound s
    rw [hreports, ne_eq, failures_eq_zero_of_isRowwise hkind]
    push Not
    exact exists_congr fun row => and_congr_right fun _ => hsound (s.other, row)
  silent := by
    intro hsilent s hs
    obtain ⟨row, -, hflag⟩ := (hreports s).1 hs
    exact hsilent (s.other, row) hflag

/-! ## Groups -/

section Groups

variable {κ : Type*} [DecidableEq κ] {key : Row V → κ} {kept : Row V → Bool}
variable {reports : TestTables V → Prop} {count : TestTables V → Nat}
variable {column : String}
variable {rows : List (Row V)}

omit [DecidableEq V] in
/-- Tests on repeated keys are told apart by copies of one row. -/
theorem probes_repeated {groupKept : Row V → Nat → Prop}
    (hgroup : ∀ row row' n, key row = key row' → (groupKept row n ↔ groupKept row' n))
    (hreports : ∀ s, reports s ↔ ∃ row ∈ s.model, 1 < groupSize key s.model (key row) ∧
      groupKept row (groupSize key s.model (key row)))
    (hcount : ∀ s, count s = (repeatedKeys key (s.model.filter kept)).length) :
    Probes reports count ⟨[], []⟩
      (fun i : Row V × Nat => ⟨List.replicate (i.2 + 2) i.1, []⟩)
      (fun i => groupKept i.1 (i.2 + 2)) (fun i => kept i.1) where
  not_reports := by simp [hreports]
  count_nothing := by
    rw [hcount]
    rfl
  reports_probe := by
    rintro ⟨row, n⟩
    rw [hreports]
    simp [groupSize_replicate]
  count_probe := by
    rintro ⟨row, n⟩ hkept
    rw [hcount, List.filter_replicate, if_pos hkept, repeatedKeys_replicate]
    rfl
  count_probe_not := by
    rintro ⟨row, n⟩ hkept
    rw [hcount, List.filter_replicate, if_neg hkept]
    rfl
  sound := by
    intro hsound s
    have hrow : ∀ row n, 1 < n → (groupKept row n ↔ kept row) := by
      intro row n hn
      obtain ⟨m, rfl⟩ := Nat.exists_eq_add_of_lt hn
      rw [Nat.add_comm 1 m]
      exact hsound (row, m)
    rw [hreports, hcount, ne_eq, List.length_eq_zero_iff, ← ne_eq, repeatedKeys_ne_nil_iff]
    constructor
    · rintro ⟨row, hmem, hsize, hkept⟩
      -- the rows of the group are kept or dropped together
      have hall : ∀ other ∈ s.model, key other = key row → kept other := by
        intro other _ hkey
        exact (hrow other _ hsize).1 ((hgroup row other _ hkey.symm).1 hkept)
      refine ⟨row, List.mem_filter.2 ⟨hmem, hall row hmem rfl⟩, ?_⟩
      rwa [groupSize_filter hall]
    · rintro ⟨row, hmem, hsize⟩
      obtain ⟨hmodel, hkept⟩ := List.mem_filter.1 hmem
      have hlt := hsize.trans_le (groupSize_filter_le kept (key row))
      exact ⟨row, hmodel, hlt, (hrow row _ hlt).2 hkept⟩
  silent := by
    intro hsilent s hs
    obtain ⟨row, -, hsize, hkept⟩ := (hreports s).1 hs
    obtain ⟨m, hm⟩ := Nat.exists_eq_add_of_lt hsize
    rw [hm, Nat.add_comm 1 m] at hkept
    exact hsilent (row, m) hkept

theorem countDistinct_filter (h : ∀ row ∈ rows, valueIn row column ≠ none → kept row) :
    countDistinct column (rows.filter kept) = countDistinct column rows := by
  have hvalues : ((rows.filter kept).map fun row => valueIn row column).filter Option.isSome =
      (rows.map fun row => valueIn row column).filter Option.isSome := by
    rw [List.filter_map, List.filter_map, List.filter_filter]
    congr 1
    apply List.filter_congr
    intro row hrow
    rw [Function.comp_apply, Bool.and_eq_left_iff_imp]
    exact fun hsome => h row hrow (Option.isSome_iff_ne_none.1 hsome)
  rw [countDistinct, countDistinct, hvalues]

theorem exists_of_countDistinct (h : countDistinct column rows = 1) :
    ∃ row ∈ rows, valueIn row column ≠ none := by
  by_contra hnone
  push Not at hnone
  have hvalues : (rows.map fun row => valueIn row column).filter Option.isSome = [] := by
    rw [List.filter_eq_nil_iff]
    intro value hvalue
    obtain ⟨row, hrow, rfl⟩ := List.mem_map.1 hvalue
    rw [hnone row hrow]
    exact Bool.false_ne_true
  rw [countDistinct, hvalues] at h
  cases h

theorem countDistinct_singleton {row : Row V} (h : valueIn row column ≠ none) :
    countDistinct column [row] = 1 := by
  have hsome : (valueIn row column).isSome = true := Option.isSome_iff_ne_none.2 h
  simp [countDistinct, hsome]

theorem probes_constant {groupKept : Row V → Prop}
    (hgroup : ∀ row row', key row = key row' → (groupKept row ↔ groupKept row'))
    (hreports : ∀ s, reports s ↔ ∃ row ∈ s.model,
      countDistinct column (s.model.filter fun other => decide (key other = key row)) = 1 ∧
        groupKept row)
    (hcount : ∀ s, count s = ((groupedKeys key (s.model.filter kept)).filter fun k =>
      decide (countDistinct column ((s.model.filter kept).filter fun row =>
        decide (key row = k)) = 1)).length) :
    Probes reports count ⟨[], []⟩
      (fun i : { row : Row V // valueIn row column ≠ none } => ⟨[i.1], []⟩)
      (fun i => groupKept i.1) (fun i => kept i.1) where
  not_reports := by simp [hreports]
  count_nothing := by
    rw [hcount]
    rfl
  reports_probe := by
    rintro ⟨row, hrow⟩
    simp [hreports, countDistinct_singleton hrow]
  count_probe := by
    rintro ⟨row, hrow⟩ hkept
    rw [hcount, List.filter_cons_of_pos hkept]
    simp [groupedKeys, countDistinct_singleton hrow]
  count_probe_not := by
    rintro ⟨row, hrow⟩ hkept
    rw [hcount, List.filter_cons_of_neg hkept]
    rfl
  sound := by
    intro hsound s
    -- the rows of a group that have a value are kept or dropped together
    have hsame : ∀ row, valueIn row column ≠ none → groupKept row →
        countDistinct column ((s.model.filter kept).filter fun other =>
            decide (key other = key row)) =
          countDistinct column (s.model.filter fun other => decide (key other = key row)) := by
      intro row _ hkept
      rw [List.filter_comm]
      apply countDistinct_filter
      intro other hother hvalue
      have hkey := of_decide_eq_true (List.mem_filter.1 hother).2
      exact (hsound ⟨other, hvalue⟩).1 ((hgroup other row hkey).2 hkept)
    rw [hreports, hcount, ne_eq, List.length_eq_zero_iff, List.filter_eq_nil_iff]
    push Not
    constructor
    · rintro ⟨row, hrow, hone, hkept⟩
      obtain ⟨other, hother, hvalue⟩ := exists_of_countDistinct hone
      obtain ⟨hmem, hkey⟩ := List.mem_filter.1 hother
      have hkey := of_decide_eq_true hkey
      have hgroupKept := (hgroup other row hkey).2 hkept
      refine ⟨key other, mem_groupedKeys.2 ⟨other, List.mem_filter.2
        ⟨hmem, (hsound ⟨other, hvalue⟩).1 hgroupKept⟩, rfl⟩, ?_⟩
      rw [decide_eq_true_iff, hsame other hvalue hgroupKept, hkey]
      exact hone
    · rintro ⟨k, hk, hone⟩
      have hone := of_decide_eq_true hone
      obtain ⟨row, hrow, hvalue⟩ := exists_of_countDistinct hone
      obtain ⟨hmem, hkey⟩ := List.mem_filter.1 hrow
      obtain ⟨hmodel, hkept⟩ := List.mem_filter.1 hmem
      obtain rfl := of_decide_eq_true hkey
      have hgroupKept := (hsound ⟨row, hvalue⟩).2 hkept
      refine ⟨row, hmodel, ?_, hgroupKept⟩
      rw [← hsame row hvalue hgroupKept]
      exact hone
  silent := by
    intro hsilent s hs
    obtain ⟨row, -, hone, hkept⟩ := (hreports s).1 hs
    obtain ⟨other, hother, hvalue⟩ := exists_of_countDistinct hone
    have hkey := of_decide_eq_true (List.mem_filter.1 hother).2
    exact hsilent ⟨other, hvalue⟩ ((hgroup other row hkey).2 hkept)

end Groups

/-! ## What the native queries return -/

variable {s : TestTables V}

theorem duplicates_ne_nil_iff :
    (((NativeQuery.duplicates names).result d t.columns t.otherColumns s).filtered filter).rows ≠
        [] ↔
      ∃ row ∈ s.model, 1 < groupSize (tupleOf names) s.model (tupleOf names row) ∧
        filter.all fun c => c.selects (names.map foldCase ++ ["n".toList])
          (tupleOf names row ++
            [some (d.count (groupSize (tupleOf names) s.model (tupleOf names row)))]) := by
  rw [filtered_ne_nil_iff]
  simp only [NativeQuery.result, List.mem_map, mem_repeatedKeys]
  constructor
  · rintro ⟨values, ⟨k, hk, rfl⟩, hselects⟩
    obtain ⟨row, hrow, rfl⟩ := groupSize_pos.1 (Nat.lt_of_succ_lt hk)
    exact ⟨row, hrow, hk, hselects⟩
  · rintro ⟨row, -, hk, hselects⟩
    exact ⟨_, ⟨_, hk, rfl⟩, hselects⟩

theorem constant_ne_nil_iff {column : String} :
    (((NativeQuery.constant names column).result d t.columns t.otherColumns s).filtered
        filter).rows ≠ [] ↔
      ∃ row ∈ s.model, countDistinct column (s.model.filter fun other =>
          decide (tupleOf names other = tupleOf names row)) = 1 ∧
        filter.all fun c => c.selects (names.map foldCase ++ ["n".toList])
          (tupleOf names row ++ [some (d.count 1)]) := by
  rw [filtered_ne_nil_iff]
  simp only [NativeQuery.result, List.mem_map, List.mem_filter, mem_groupedKeys, decide_eq_true_iff]
  constructor
  · rintro ⟨values, ⟨k, ⟨⟨row, hrow, rfl⟩, hone⟩, rfl⟩, hselects⟩
    exact ⟨row, hrow, hone, hselects⟩
  · rintro ⟨row, hrow, hone, hselects⟩
    exact ⟨_, ⟨_, ⟨⟨row, hrow, rfl⟩, hone⟩, rfl⟩, hselects⟩

end GenericTest
end PhloTransform.Dbt
