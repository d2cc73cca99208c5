import PhloTransform.Dbt.GenericTestProbes

/-!
# When generic tests agree with their native forms

A native test agrees with the test of dbt on all tables just when dbt's verdict is that there is
a failure and the native query finds the failures, or when neither ever fails.

Main results:

- Theorem `agrees_iff`: when a test agrees, for every kind of test.
- Theorem `sound_acceptedRange`: which ranges are faithful.
-/

namespace PhloTransform.Dbt

open Library

namespace GenericTest

variable {V : Type*} [DecidableEq V] (d : Dialect V) (t : GenericTest V)
variable {emission : Emission}

/-! ## The condition -/

omit [DecidableEq V] in
/-- The test is implied by the key of its model. -/
def folded (t : GenericTest V) : Prop :=
  t.ofSource = false ∧ t.columnName ∈ t.keyColumns

/-- What is emitted finds a row just when the test of dbt counts one: the arguments mean the same
to both, and the filter of dbt keeps what the emitted test is about. -/
def Sound : Prop :=
  match t.kind with
  | .unique => ¬ t.folded ∧ ∀ row n, 1 < n →
      (t.groupKept d [t.columnName] row n ↔ t.kept row ∧ valueIn row t.columnName ≠ none)
  | .notNull => (t.folded → t.columnName ∈ t.keys) ∧
      ∀ row, valueIn row t.columnName = none → t.kept row
  | .acceptedValues values quote => ∀ row,
      (t.ofSource ∨ t.kept row) ∧ notIn d (valueIn row t.columnName) (acceptedLiterals values) ↔
        t.kept row ∧ notIn d (valueIn row t.columnName) (dbtLiterals d values quote)
  | .relationships _ => True
  | .expressionIsTrue expression => ∀ row, t.kept row →
      violates d t.columns expression row = violates d t.columns (t.dbtExpression expression) row
  | .acceptedRange minValue maxValue inclusive => ∀ row, t.kept row →
      outsideOf d (rangeBounds minValue maxValue inclusive) row (valueIn row t.columnName) =
        dbtOutside d minValue maxValue inclusive row (valueIn row t.columnName)
  | .notEmptyString trim => ∀ row, t.kept row →
      emptyText d trim.notFalse (valueIn row t.columnName) =
        emptyText d trim.isTrue (valueIn row t.columnName)
  | .notConstant names => ∀ row, valueIn row t.columnName ≠ none →
      (t.groupKept d names row 1 ↔ t.kept row)
  | .uniqueCombinationOfColumns names => ∀ row n, 1 < n → (t.groupKept d names row n ↔ t.kept row)
  | .equality _ _ | .equalRowcount _ | .other _ => False

def Silent : Prop :=
  match t.kind with
  | .unique => (t.folded → t.keys = []) ∧
      (¬ t.folded → ∀ row n, 1 < n → ¬ t.groupKept d [t.columnName] row n)
  | .notNull => t.folded ∧ t.columnName ∉ t.keys
  | .acceptedValues values _ => ∀ row,
      ¬ ((t.ofSource ∨ t.kept row) ∧ notIn d (valueIn row t.columnName) (acceptedLiterals values))
  | .relationships _ => ∀ row, t.kept row → valueIn row t.columnName = none
  | .expressionIsTrue expression => ∀ row, t.kept row → ¬ violates d t.columns expression row
  | .acceptedRange minValue maxValue inclusive => ∀ row, t.kept row →
      ¬ outsideOf d (rangeBounds minValue maxValue inclusive) row (valueIn row t.columnName)
  | .notEmptyString trim => ∀ row, t.kept row →
      ¬ emptyText d trim.notFalse (valueIn row t.columnName)
  | .notConstant names => ∀ row, valueIn row t.columnName ≠ none → ¬ t.groupKept d names row 1
  | .uniqueCombinationOfColumns names => ∀ row n, 1 < n → ¬ t.groupKept d names row n
  | .equality names _ => ∀ row, ¬ t.comparisonKept names row
  | .equalRowcount _ => ∀ here there, here ≠ there → ¬ t.rowcountsKept d here there
  | .other _ => True

/-- The verdict of dbt is that there is a failure, and what is emitted finds the failures; or
neither ever fails. -/
def Faithful : Prop :=
  (∀ s, t.verdict (t.failures d s) ↔ t.failures d s ≠ 0) ∧ t.Sound d ∨
    (∀ s, ¬ t.verdict (t.failures d s)) ∧ t.Silent d

variable {d t} {s : TestTables V}

/-! ## What is emitted for which test -/

section

omit [DecidableEq V]

/-- The test is one that the emission is for. -/
def IsFor (t : GenericTest V) : Emission → Prop
  | .test (.duplicates names) => t.kind = .unique ∧ names = [t.columnName] ∧ ¬ t.folded ∨
      t.kind = .uniqueCombinationOfColumns names
  | .test (.isNull column) => t.kind = .notNull ∧ column = t.columnName ∧ t.ofSource = true
  | .test (.notIn column literals) => ∃ values quote, t.kind = .acceptedValues values quote ∧
      column = t.columnName ∧ literals = acceptedLiterals values
  | .test (.orphans column field) => t.kind = .relationships field ∧ column = t.columnName ∧
      t.ofSource = false
  | .test (.violations expression) => t.kind = .expressionIsTrue expression ∧ t.ofSource = false
  | .test (.outside column bounds) => ∃ minValue maxValue inclusive,
      t.kind = .acceptedRange minValue maxValue inclusive ∧ column = t.columnName ∧
        bounds = rangeBounds minValue maxValue inclusive ∧ t.ofSource = false
  | .test (.constant names column) => t.kind = .notConstant names ∧ column = t.columnName
  | .test (.emptyStrings column trim) => ∃ value, t.kind = .notEmptyString value ∧
      column = t.columnName ∧ trim = value.notFalse ∧ t.ofSource = false
  | .test (.difference names) => ∃ unsupported, t.kind = .equality names unsupported
  | .test .rowcounts => ∃ groups, t.kind = .equalRowcount groups
  | .notNull column => t.kind = .notNull ∧ column = t.columnName ∧ ¬ t.folded
  | .foldedNotNull column => t.kind = .notNull ∧ column = t.columnName ∧ t.folded
  | .foldedUnique => t.kind = .unique ∧ t.folded

theorem columnName_eq {column : String} (h : t.column = some column) : column = t.columnName := by
  simp [columnName, h]

theorem isFor_of_emitSourceTests (hsource : t.ofSource = true)
    (h : t.emitSourceTests = some emission) : t.IsFor emission := by
  have hfolded : ¬ t.folded := by
    rintro ⟨hmodel, -⟩
    rw [hsource] at hmodel
    cases hmodel
  unfold emitSourceTests at h
  split at h
  · next hkind hcolumn =>
      cases h
      exact .inl ⟨hkind, by rw [columnName_eq hcolumn], hfolded⟩
  · next hkind hcolumn =>
      cases h
      exact ⟨hkind, columnName_eq hcolumn, hsource⟩
  · next hkind hcolumn =>
      cases h
      exact ⟨_, _, hkind, columnName_eq hcolumn, rfl⟩
  · cases h

theorem isFor_of_translateGenericTest (hmodel : t.ofSource = false)
    (h : t.translateGenericTest = some emission) : t.IsFor emission := by
  have hfolded : ∀ column, t.column = some column → (t.folded ↔ column ∈ t.keyColumns) := by
    intro column hcolumn
    rw [folded, and_iff_right hmodel, columnName_eq hcolumn]
  unfold translateGenericTest at h
  split at h
  · next hkind hcolumn =>
      split at h
      · next hkey =>
          cases h
          exact ⟨hkind, (hfolded _ hcolumn).2 hkey⟩
      · next hkey =>
          cases h
          exact .inl ⟨hkind, by rw [columnName_eq hcolumn], mt (hfolded _ hcolumn).1 hkey⟩
  · next hkind hcolumn =>
      split at h
      · next hkey =>
          cases h
          exact ⟨hkind, columnName_eq hcolumn, (hfolded _ hcolumn).2 hkey⟩
      · next hkey =>
          cases h
          exact ⟨hkind, columnName_eq hcolumn, mt (hfolded _ hcolumn).1 hkey⟩
  · next hkind hcolumn =>
      cases h
      exact ⟨_, _, hkind, columnName_eq hcolumn, rfl⟩
  · next hkind hcolumn =>
      cases h
      exact ⟨hkind, columnName_eq hcolumn, hmodel⟩
  · next hkind =>
      cases h
      exact ⟨hkind, hmodel⟩
  · next hkind hcolumn =>
      simp only at h
      split at h <;> cases h
      exact ⟨_, _, _, hkind, columnName_eq hcolumn, rfl, hmodel⟩
  · next hkind hcolumn =>
      cases h
      exact ⟨hkind, columnName_eq hcolumn⟩
  · next hkind hcolumn =>
      cases h
      exact ⟨_, hkind, columnName_eq hcolumn, rfl, hmodel⟩
  · next hkind =>
      split at h <;> cases h
      exact .inr hkind
  · next hkind =>
      split at h <;> cases h
      exact ⟨_, hkind⟩
  · next hkind =>
      cases h
      exact ⟨_, hkind⟩
  · cases h

theorem isFor_of_emission (h : t.emission = some emission) : t.IsFor emission := by
  unfold GenericTest.emission at h
  split at h
  · next hsource => exact isFor_of_emitSourceTests hsource h
  · next hmodel => exact isFor_of_translateGenericTest (Bool.eq_false_iff.2 hmodel) h

end

/-! ## Agreement, for every kind of test -/

def Decides (d : Dialect V) (t : GenericTest V) (emission : Emission) : Prop :=
  (∀ s, t.reports d emission s ↔ t.verdict (t.failures d s)) ↔ t.Faithful d

theorem decides_of_probes {ι : Type*} {nothing : TestTables V} {probe : ι → TestTables V}
    {reported counted : ι → Prop}
    (h : Probes (t.reports d emission) (t.failures d) nothing probe reported counted)
    (hsound : t.Sound d ↔ ∀ i, reported i ↔ counted i) (hsilent : t.Silent d ↔ ∀ i, ¬ reported i) :
    t.Decides d emission := by
  rw [Decides, h.agree_iff, Faithful, hsound, hsilent]

/-- The condition where what is emitted never finds the failures. -/
theorem decides_of_conflict (hunsound : ¬ t.Sound d)
    (hsilent : t.Silent d → ∀ s, ¬ t.reports d emission s)
    (hconflict : ¬ t.Silent d → ∃ s s', t.failures d s = t.failures d s' ∧
      t.reports d emission s ∧ ¬ t.reports d emission s') : t.Decides d emission := by
  rw [Decides, agree_iff_of_conflict hsilent hconflict, Faithful, or_iff_right]
  exact fun h => hunsound h.2

section Kinds

variable {query : NativeQuery} {column : String} {names : List String}
variable {groups : List String}

theorem reports_of_isRowwise (hquery : query.isRowwise = true) (s : TestTables V) :
    t.reports d (.test query) s ↔ ∃ row ∈ s.model, t.reported d query s.other row := by
  have hresult : query.result d t.columns t.otherColumns s =
      selectAll t.columns (s.model.filter fun row => query.flags d t.columns s.other row) := by
    cases query with
    | isNull _ | notIn _ _ | orphans _ _ | violations _ | outside _ _ | emptyStrings _ _ => rfl
    | duplicates _ | constant _ _ | difference _ | rowcounts => cases hquery
  simp only [reports, runs, hresult]
  exact filter_selectAll_ne_nil

theorem decides_of_isRowwise (hkind : t.kind.isRowwise = true) (hquery : query.isRowwise = true)
    (hsound : t.Sound d ↔ ∀ other row, t.reported d query other row ↔ t.counted d other row)
    (hsilent : t.Silent d ↔ ∀ other row, ¬ t.reported d query other row) :
    t.Decides d (.test query) := by
  refine decides_of_probes (probes_rows _ hkind (reports_of_isRowwise hquery)) ?_ ?_
  · rw [hsound, Prod.forall]
  · rw [hsilent, Prod.forall]

theorem reported_iff (other : List (Row V)) (row : Row V) :
    t.reported d query other row ↔
      (t.ofSource ∨ t.kept row) ∧ query.flags d t.columns other row := by
  rw [reported, fileKeeps_map, Bool.or_eq_true, and_comm]

theorem decides_of_flags (hkind : t.kind.isRowwise = true) (hquery : query.isRowwise = true)
    (hmodel : t.ofSource = false) (native reference : Row V → Bool)
    (hnative : ∀ other row, query.flags d t.columns other row = native row)
    (hreference : ∀ other row, t.dbtFlags d other row = reference row)
    (hsound : t.Sound d ↔ ∀ row, t.kept row → native row = reference row)
    (hsilent : t.Silent d ↔ ∀ row, t.kept row → ¬ native row) : t.Decides d (.test query) := by
  have hreported : ∀ other row, t.reported d query other row ↔ t.kept row ∧ native row := by
    intro other row
    rw [reported_iff, hmodel, hnative]
    simp only [Bool.false_eq_true, false_or]
  refine decides_of_isRowwise hkind hquery ?_ ?_
  · rw [hsound]
    simp only [hreported, counted, hreference, and_congr_right_iff, forall_const]
    exact forall₂_congr fun row _ => Bool.eq_iff_iff
  · rw [hsilent]
    simp only [hreported, not_and, forall_const]

theorem decides_notIn {values : List Lit} {quote : Lit}
    (hkind : t.kind = .acceptedValues values quote) :
    t.Decides d (.test (.notIn t.columnName (acceptedLiterals values))) := by
  refine decides_of_isRowwise (by rw [hkind]; rfl) rfl ?_ ?_
  · simp only [Sound, hkind, reported_iff, counted, NativeQuery.flags, dbtFlags, forall_const]
  · simp only [Silent, hkind, reported_iff, NativeQuery.flags, forall_const]

theorem decides_orphans {field : String} (hkind : t.kind = .relationships field)
    (hmodel : t.ofSource = false) : t.Decides d (.test (.orphans t.columnName field)) := by
  have hreported : ∀ other row, t.reported d (.orphans t.columnName field) other row ↔
      t.kept row ∧ orphaned other t.columnName field row := by
    intro other row
    rw [reported_iff, hmodel]
    simp only [Bool.false_eq_true, false_or, NativeQuery.flags]
  refine decides_of_isRowwise (by rw [hkind]; rfl) rfl ?_ ?_
  · simp only [Sound, hkind, hreported, counted, dbtFlags, implies_true]
  · simp only [Silent, hkind, hreported, not_and]
    constructor
    · intro hnone other row hkept
      simp [orphaned, hnone row hkept]
    · intro hsilent row hkept
      simpa [orphaned] using hsilent [] row hkept

theorem decides_violations {expression : String} (hkind : t.kind = .expressionIsTrue expression)
    (hmodel : t.ofSource = false) : t.Decides d (.test (.violations expression)) := by
  refine decides_of_flags (by rw [hkind]; rfl) rfl hmodel
    (fun row => violates d t.columns expression row)
    (fun row => violates d t.columns (t.dbtExpression expression) row)
    (fun _ _ => rfl) (fun _ _ => ?_) ?_ ?_
  · simp only [dbtFlags, hkind]
  · simp only [Sound, hkind]
  · simp only [Silent, hkind]

theorem decides_outside {minValue maxValue inclusive : Lit}
    (hkind : t.kind = .acceptedRange minValue maxValue inclusive) (hmodel : t.ofSource = false) :
    t.Decides d (.test (.outside t.columnName (rangeBounds minValue maxValue inclusive))) := by
  refine decides_of_flags (by rw [hkind]; rfl) rfl hmodel
    (fun row =>
      outsideOf d (rangeBounds minValue maxValue inclusive) row (valueIn row t.columnName))
    (fun row => dbtOutside d minValue maxValue inclusive row (valueIn row t.columnName))
    (fun _ _ => rfl) (fun _ _ => ?_) ?_ ?_
  · simp only [dbtFlags, hkind]
  · simp only [Sound, hkind]
  · simp only [Silent, hkind]

theorem decides_emptyStrings {trim : Lit} (hkind : t.kind = .notEmptyString trim)
    (hmodel : t.ofSource = false) :
    t.Decides d (.test (.emptyStrings t.columnName trim.notFalse)) := by
  refine decides_of_flags (by rw [hkind]; rfl) rfl hmodel
    (fun row => emptyText d trim.notFalse (valueIn row t.columnName))
    (fun row => emptyText d trim.isTrue (valueIn row t.columnName))
    (fun _ _ => rfl) (fun _ _ => ?_) ?_ ?_
  · simp only [dbtFlags, hkind]
  · simp only [Sound, hkind]
  · simp only [Silent, hkind]

theorem filtered_isNull_ne_nil (s : TestTables V) :
    (((NativeQuery.isNull column).result d t.columns t.otherColumns s).filtered none).rows ≠ [] ↔
      ∃ row ∈ s.model, valueIn row column = none := by
  simp only [NativeQuery.result, filter_selectAll_ne_nil, NativeQuery.flags, Option.all_none,
    and_true, Option.isNone_iff_eq_none]

theorem counted_of_notNull (hkind : t.kind = .notNull) (other : List (Row V)) (row : Row V) :
    t.counted d other row ↔ t.kept row ∧ valueIn row t.columnName = none := by
  simp only [counted, dbtFlags, hkind, Option.isNone_iff_eq_none]

theorem probes_notNull (hkind : t.kind = .notNull) {reports : TestTables V → Prop}
    (hreports : ∀ s, reports s ↔ ∃ row ∈ s.model, valueIn row t.columnName = none) :
    Probes reports (t.failures d) ⟨[], []⟩ (fun i : List (Row V) × Row V => ⟨[i.2], i.1⟩)
      (fun i => valueIn i.2 t.columnName = none) (fun i => t.counted d i.1 i.2) := by
  have hrowwise : t.kind.isRowwise = true := by
    rw [hkind]
    rfl
  exact probes_rows (fun _ row => valueIn row t.columnName = none) hrowwise hreports

/-- A null is reported whatever the filter, unless the model is emitted with another key. -/
theorem decides_nulls {emission : Emission} (hkind : t.kind = .notNull)
    (hkey : t.folded → t.columnName ∈ t.keys)
    (hreports : ∀ s, t.reports d emission s ↔ ∃ row ∈ s.model, valueIn row t.columnName = none) :
    t.Decides d emission := by
  refine decides_of_probes (probes_notNull hkind hreports) ?_ ?_
  · simp only [Sound, hkind, and_iff_right hkey, counted_of_notNull hkind, iff_and_self,
      Prod.forall, forall_const]
  · simp only [Silent, hkind]
    exact iff_of_false (fun h => h.2 (hkey h.1)) fun h => h ⟨[], fun _ => none⟩ rfl

theorem decides_isNull (hkind : t.kind = .notNull) (hsource : t.ofSource = true) :
    t.Decides d (.test (.isNull t.columnName)) := by
  refine decides_nulls hkind (fun hfolded => ?_) fun s => ?_
  · cases hsource.symm.trans hfolded.1
  · simp only [reports, runs, if_pos hsource]
    exact filtered_isNull_ne_nil s

theorem decides_notNull (hkind : t.kind = .notNull) (hfolded : ¬ t.folded) :
    t.Decides d (.notNull t.columnName) :=
  decides_nulls hkind (fun h => absurd h hfolded) fun s => filtered_isNull_ne_nil s

theorem decides_foldedNotNull (hkind : t.kind = .notNull) (hfolded : t.folded) :
    t.Decides d (.foldedNotNull t.columnName) := by
  by_cases hkey : t.columnName ∈ t.keys
  · refine decides_nulls hkind (fun _ => hkey) fun s => ?_
    simp only [reports, runs, if_pos hkey]
    exact filtered_isNull_ne_nil s
  · refine decides_of_conflict ?_ ?_ ?_
    · simp only [Sound, hkind]
      exact fun hsound => hkey (hsound.1 hfolded)
    · intro _ s hs
      simp only [reports, runs, if_neg hkey] at hs
    · simp only [Silent, hkind]
      exact fun hloud => absurd ⟨hfolded, hkey⟩ hloud

omit [DecidableEq V] in
theorem forall_two_le {P : Row V → Nat → Prop} :
    (∀ row n, 1 < n → P row n) ↔ ∀ i : Row V × Nat, P i.1 (i.2 + 2) := by
  constructor
  · intro h i
    exact h i.1 (i.2 + 2) (by omega)
  · intro h row n hn
    obtain ⟨m, rfl⟩ := Nat.exists_eq_add_of_lt hn
    rw [Nat.add_comm 1 m]
    exact h (row, m)

theorem decides_duplicates (kept : Row V → Bool)
    (hcount : ∀ s, t.failures d s = (repeatedKeys (tupleOf names) (s.model.filter kept)).length)
    (hsound : t.Sound d ↔ ∀ row n, 1 < n → (t.groupKept d names row n ↔ kept row))
    (hsilent : t.Silent d ↔ ∀ row n, 1 < n → ¬ t.groupKept d names row n) :
    t.Decides d (.test (.duplicates names)) := by
  have hgroup : ∀ row row' n, tupleOf names row = tupleOf names row' →
      (t.groupKept d names row n ↔ t.groupKept d names row' n) := by
    intro row row' n hsame
    rw [groupKept, groupKept, hsame]
  refine decides_of_probes
    (probes_repeated hgroup (fun s => duplicates_ne_nil_iff) hcount) ?_ ?_
  · rw [hsound]
    exact forall_two_le
  · rw [hsilent]
    exact forall_two_le

theorem decides_unique (hkind : t.kind = .unique) (hfolded : ¬ t.folded) :
    t.Decides d (.test (.duplicates [t.columnName])) := by
  refine decides_duplicates
    (fun row => (valueIn row t.columnName).isSome && t.kept row) (fun s => ?_) ?_ ?_
  · simp only [failures, hkind, List.filter_filter]
  · simp only [Sound, hkind, and_iff_right hfolded, Bool.and_eq_true, Option.isSome_iff_ne_none,
      and_comm]
  · simp only [Silent, hkind, hfolded, false_imp_iff, true_and, not_false_eq_true, true_imp_iff]

theorem decides_uniqueCombination (hkind : t.kind = .uniqueCombinationOfColumns names) :
    t.Decides d (.test (.duplicates names)) := by
  refine decides_duplicates t.kept (fun s => ?_) ?_ ?_
  · simp only [failures, hkind]
  · simp only [Sound, hkind]
  · simp only [Silent, hkind]

/-- A key that is unique has no repeated nulls, which dbt does not count. -/
theorem decides_foldedUnique (hkind : t.kind = .unique) (hfolded : t.folded) :
    t.Decides d .foldedUnique := by
  have hsilent : t.Silent d ↔ t.keys = [] := by
    simp only [Silent, hkind, hfolded, true_imp_iff, not_true_eq_false, false_imp_iff, and_true]
  refine decides_of_conflict ?_ ?_ ?_
  · simp only [Sound, hkind]
    exact fun hsound => hsound.1 hfolded
  · intro hkeys s hs
    rw [hsilent] at hkeys
    simp [reports, runs, hkeys] at hs
  · intro hkeys
    rw [hsilent, ← List.isEmpty_iff, Bool.not_eq_true] at hkeys
    refine ⟨⟨[fun _ => none, fun _ => none], []⟩, ⟨[], []⟩, ?_, ?_, ?_⟩
    · have hnone : (([fun _ => none, fun _ => none] : List (Row V)).filter t.kept).filter
          (fun row => (valueIn row t.columnName).isSome) = [] := by
        rw [List.filter_eq_nil_iff]
        intro row hrow
        have hmem := List.mem_of_mem_filter hrow
        simp only [List.mem_cons, List.not_mem_nil, or_false, or_self] at hmem
        subst hmem
        exact Bool.false_ne_true
      simp only [failures, hkind, hnone]
      rfl
    · simp only [reports, runs, hkeys, Bool.false_eq_true, if_false]
      rw [duplicates_ne_nil_iff]
      exact ⟨_, List.mem_cons_self, by simp [groupSize], rfl⟩
    · simp only [reports, runs, hkeys, Bool.false_eq_true, if_false]
      rw [duplicates_ne_nil_iff]
      simp

theorem decides_constant (hkind : t.kind = .notConstant names) :
    t.Decides d (.test (.constant names t.columnName)) := by
  have hgroup : ∀ row row', tupleOf names row = tupleOf names row' →
      (t.groupKept d names row 1 ↔ t.groupKept d names row' 1) := by
    intro row row' hsame
    rw [groupKept, groupKept, hsame]
  have hcount : ∀ s, t.failures d s =
      ((groupedKeys (tupleOf names) (s.model.filter t.kept)).filter fun k =>
        decide (countDistinct t.columnName ((s.model.filter t.kept).filter fun row =>
          decide (tupleOf names row = k)) = 1)).length := by
    intro s
    simp only [failures, hkind]
  refine decides_of_probes
    (probes_constant hgroup (fun s => constant_ne_nil_iff) hcount) ?_ ?_
  · simp only [Sound, hkind, Subtype.forall]
  · simp only [Silent, hkind, Subtype.forall]

/-! ## Comparisons -/

theorem reports_difference_iff {s : TestTables V} {names : Option (List String)} :
    t.reports d (.test (.difference names)) s ↔
      ∃ values ∈ ((NativeQuery.difference names).result d t.columns t.otherColumns s).rows,
        t.fileKeeps ((NativeQuery.difference names).result d t.columns t.otherColumns s).columns
          values := by
  simp only [reports, runs]
  exact filtered_ne_nil_iff

/-- The rows of a comparison are compared rows of the one side or the other. -/
theorem comparisonKept_of_reports {s : TestTables V} {names : Option (List String)}
    (h : t.reports d (.test (.difference names)) s) : ∃ row, t.comparisonKept names row := by
  obtain ⟨values, hvalues, hkeeps⟩ := reports_difference_iff.1 h
  cases names with
  | some names =>
    have hsides : values ∈ s.model.map (tupleOf names) ∨ values ∈ s.other.map (tupleOf names) :=
      (List.mem_append.1 hvalues).imp (fun h => List.diff_subset _ _ h)
        fun h => List.diff_subset _ _ h
    rcases hsides with hside | hside
    · obtain ⟨row, -, rfl⟩ := List.mem_map.1 hside
      exact ⟨row, hkeeps⟩
    · obtain ⟨row, -, rfl⟩ := List.mem_map.1 hside
      exact ⟨row, hkeeps⟩
  | none =>
    simp only [NativeQuery.result] at hvalues hkeeps
    split at hvalues
    · next hlength =>
        have hvalues : values.length = t.columns.length := by
          rcases List.mem_append.1 hvalues with hside | hside
          · obtain ⟨row, -, rfl⟩ := List.mem_map.1 (List.diff_subset _ _ hside)
            rw [List.length_map]
          · obtain ⟨row, -, rfl⟩ := List.mem_map.1 (List.diff_subset _ _ hside)
            rw [List.length_map, hlength]
        refine ⟨named t.columns values, ?_⟩
        rw [comparisonKept, map_named t.columns_nodup hvalues, decide_eq_true hlength,
          Bool.true_and]
        exact hkeeps
    · cases hvalues

/-- dbt compares what its filter keeps, and sets of rows; the native test does neither. -/
theorem decides_difference {names : Option (List String)} {unsupported : Bool}
    (hkind : t.kind = .equality names unsupported) : t.Decides d (.test (.difference names)) := by
  refine decides_of_conflict ?_ ?_ ?_
  · simp only [Sound, hkind, not_false_eq_true]
  · intro hsilent s hs
    simp only [Silent, hkind] at hsilent
    obtain ⟨row, hrow⟩ := comparisonKept_of_reports hs
    exact hsilent row hrow
  · intro hloud
    simp only [Silent, hkind, not_forall, not_not] at hloud
    obtain ⟨row, hrow⟩ := hloud
    have hreports : ∀ s : TestTables V, (∀ compared compared' : Row V → List (Option V),
        compared row ∈ (s.model.map compared).diff (s.other.map compared')) →
        t.reports d (.test (.difference names)) s := by
      intro s hs
      rw [reports_difference_iff]
      cases names with
      | some names => exact ⟨tupleOf names row, List.mem_append_left _ (hs _ _), hrow⟩
      | none =>
        rw [comparisonKept, Bool.and_eq_true, decide_eq_true_iff] at hrow
        refine ⟨t.columns.map row, ?_, hrow.2⟩
        simp only [NativeQuery.result, if_pos hrow.1]
        exact List.mem_append_left _ (hs (fun row => t.columns.map row) _)
    have hnothing : ¬ t.reports d (.test (.difference names)) ⟨[], []⟩ := by
      rw [reports_difference_iff]
      cases names with
      | some names => simp [NativeQuery.result]
      | none => simp [NativeQuery.result]
    by_cases hkept : t.kept row
    · refine ⟨⟨[row, row], [row]⟩, ⟨[], []⟩, ?_, hreports _ fun _ _ => mem_diff_of_pair _ _,
        hnothing⟩
      simp [failures, hkind, hkept]
    · refine ⟨⟨[row], []⟩, ⟨[], []⟩, ?_, hreports _ fun _ _ => List.mem_singleton_self _, hnothing⟩
      simp [failures, hkind, hkept]

/-! ## Numbers of rows -/

theorem reports_rowcounts_iff {s : TestTables V} :
    t.reports d (.test .rowcounts) s ↔ s.model.length ≠ s.other.length ∧
      t.rowcountsKept d s.model.length s.other.length := by
  simp only [reports, runs]
  rw [filtered_ne_nil_iff]
  simp only [NativeQuery.result]
  by_cases hsame : s.model.length = s.other.length
  · simp [hsame]
  · simp only [if_neg hsame, List.mem_singleton, exists_eq_left]
    rw [and_iff_right hsame]
    rfl

theorem failures_rowcounts (hkind : t.kind = .equalRowcount groups) {s : TestTables V}
    (h : s.model.filter t.kept = [] ∨ s.other = []) : t.failures d s = 0 := by
  rcases h with hmodel | hother
  · simp [failures, hkind, hmodel, groupedKeys]
  · simp [failures, hkind, hother, groupedKeys]

/-- Numbers of rows that the file keeps are told apart with a side that dbt sees no rows of. -/
theorem exists_rowcounts {here there : Nat} (hne : here ≠ there)
    (hkept : t.rowcountsKept d here there) :
    ∃ s : TestTables V, (s.model.filter t.kept = [] ∨ s.other = []) ∧
      t.reports d (.test .rowcounts) s := by
  by_cases hone : t.rowcountsKept d 1 0
  · exact ⟨⟨[fun _ => none], []⟩, .inr rfl, reports_rowcounts_iff.2 ⟨Nat.one_ne_zero, hone⟩⟩
  · -- the file has a filter, and it drops the row of the numbers 1 and 0
    let row := named ["here".toList, "there".toList] [some (d.count 1), some (d.count 0)]
    have hrow : ¬ t.kept row := by
      unfold rowcountsKept fileKeeps fileFilter at hkept hone
      intro hrow
      apply hone
      split at hkept
      · next hsource =>
          rw [if_pos hsource]
          rfl
      · next hsource =>
          rw [if_neg hsource]
          unfold GenericTest.kept at hrow
          cases hfilter : t.filter with
          | none => rfl
          | some c =>
            rw [hfilter, Option.all_some] at hkept hrow
            rw [Option.all_some, Condition.selects, Bool.and_eq_true]
            exact ⟨(Bool.and_eq_true _ _ ▸ hkept).1, hrow⟩
    refine ⟨⟨List.replicate here row, List.replicate there row⟩, .inl ?_, ?_⟩
    · rw [List.filter_replicate, if_neg hrow]
    · rw [reports_rowcounts_iff, List.length_replicate, List.length_replicate]
      exact ⟨hne, hkept⟩

theorem decides_rowcounts (hkind : t.kind = .equalRowcount groups) :
    t.Decides d (.test .rowcounts) := by
  refine decides_of_conflict ?_ ?_ ?_
  · simp only [Sound, hkind, not_false_eq_true]
  · intro hsilent s hs
    simp only [Silent, hkind] at hsilent
    obtain ⟨hne, hkept⟩ := reports_rowcounts_iff.1 hs
    exact hsilent _ _ hne hkept
  · intro hloud
    simp only [Silent, hkind, not_forall, not_not] at hloud
    obtain ⟨here, there, hne, hkept⟩ := hloud
    obtain ⟨s, hside, hreports⟩ := exists_rowcounts hne hkept
    refine ⟨s, ⟨[], []⟩, ?_, hreports, ?_⟩
    · rw [failures_rowcounts hkind hside, failures_rowcounts hkind (.inr rfl)]
    · rw [reports_rowcounts_iff]
      exact fun h => h.1 rfl

end Kinds

theorem decides_of_isFor (h : t.IsFor emission) : t.Decides d emission := by
  cases emission with
  | test query =>
    cases query with
    | duplicates names =>
      rcases h with ⟨hkind, rfl, hfolded⟩ | hkind
      · exact decides_unique hkind hfolded
      · exact decides_uniqueCombination hkind
    | isNull column =>
      obtain ⟨hkind, rfl, hsource⟩ := h
      exact decides_isNull hkind hsource
    | notIn column literals =>
      obtain ⟨values, quote, hkind, rfl, rfl⟩ := h
      exact decides_notIn hkind
    | orphans column field =>
      obtain ⟨hkind, rfl, hmodel⟩ := h
      exact decides_orphans hkind hmodel
    | violations expression => exact decides_violations h.1 h.2
    | outside column bounds =>
      obtain ⟨minValue, maxValue, inclusive, hkind, rfl, rfl, hmodel⟩ := h
      exact decides_outside hkind hmodel
    | constant names column =>
      obtain ⟨hkind, rfl⟩ := h
      exact decides_constant hkind
    | emptyStrings column trim =>
      obtain ⟨value, hkind, rfl, rfl, hmodel⟩ := h
      exact decides_emptyStrings hkind hmodel
    | difference names =>
      obtain ⟨unsupported, hkind⟩ := h
      exact decides_difference hkind
    | rowcounts =>
      obtain ⟨groups, hkind⟩ := h
      exact decides_rowcounts hkind
  | notNull column =>
    obtain ⟨hkind, rfl, hfolded⟩ := h
    exact decides_notNull hkind hfolded
  | foldedUnique => exact decides_foldedUnique h.1 h.2
  | foldedNotNull column =>
    obtain ⟨hkind, rfl, hfolded⟩ := h
    exact decides_foldedNotNull hkind hfolded

/-- A native test agrees with the test of dbt on all tables just when dbt's verdict is that there
is a failure and what is emitted finds the failures, or when neither ever fails. -/
theorem agrees_iff (d : Dialect V) (t : GenericTest V) :
    t.Agrees d ↔ (t.emission.isSome → t.Faithful d) := by
  have hdecides : ∀ emission, t.emission = some emission → t.Decides d emission :=
    fun emission hemission => decides_of_isFor (isFor_of_emission hemission)
  constructor
  · intro hagrees hsome
    obtain ⟨emission, hemission⟩ := Option.isSome_iff_exists.1 hsome
    exact (hdecides emission hemission).1 (hagrees emission hemission)
  · intro hfaithful emission hemission
    exact (hdecides emission hemission).2 (hfaithful (Option.isSome_iff_exists.2 ⟨_, hemission⟩))

end GenericTest

/-! ## Nulls of a column that is tested to be unique -/

namespace Sample

def plainDialect : Dialect Nat where
  count := id
  condition := fun _ => none
  equal := fun _ _ => none
  compare := fun _ _ _ => none
  compare_null := fun _ _ => rfl
  trim := id
  isEmptyText := fun _ => none
  repr := fun _ => ""

def uniqueTest : GenericTest Nat where
  kind := .unique
  column := some "id"
  filter := none
  severity := .error
  errorIf := fun failures => failures != 0
  ofSource := false
  keyColumns := []
  keys := []
  columns := ["id".toList]
  columns_nodup := List.nodup_singleton _
  otherColumns := []
  filter_reads := nofun

/-- The native test returns the nulls, which dbt does not count. -/
theorem not_agrees_uniqueTest :
    uniqueTest.emission = some (.test (.duplicates ["id"])) ∧ ¬ uniqueTest.Agrees plainDialect := by
  refine ⟨rfl, fun hagrees => ?_⟩
  have hiff := hagrees _ rfl ⟨[fun _ => none, fun _ => none], []⟩
  have hreports : uniqueTest.reports plainDialect (.test (.duplicates ["id"]))
      ⟨[fun _ => none, fun _ => none], []⟩ := by
    change ([[none, some 2]] : List (List (Option Nat))) ≠ []
    exact List.cons_ne_nil _ _
  have hverdict : uniqueTest.verdict (uniqueTest.failures plainDialect
      ⟨[fun _ => none, fun _ => none], []⟩) = false := rfl
  rw [hverdict] at hiff
  exact Bool.false_ne_true (hiff.1 hreports)

end Sample
end PhloTransform.Dbt
