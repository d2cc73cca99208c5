import PhloTransform.Library.Joins
import PhloTransform.Library.SqlTable

/-!
# Keyed diffs

Two relations are compared row by row under the key of a model.  One query joins them fully, by
a comparison in which nulls are alike, and counts the rows of either side and of both; a second
one for each column joins them by plain equality and counts the rows that changed there.

Main results:

- Theorem `changePredicate_eq`: the condition on a column is never unknown.
- Theorem `KeyedDiff.keyedCounts_eq`: what the first query counts.
-/

namespace PhloTransform.Engine

open Library

/-! ## The condition on a column -/

/-- How far two values of a column may lie apart, with bounds of a type `F`. -/
structure ColumnTolerance (F : Type*) where
  absolute : Option F
  relative : Option F
deriving Repr, DecidableEq

/-- How the warehouse compares two values that are not null. -/
structure Arithmetic (V F : Type*) where
  withinAbsolute : F → V → V → Bool
  withinRelative : F → V → V → Bool

section Predicate

variable {V F : Type*} [DecidableEq V] (arithmetic : Arithmetic V F)

/-- The truth of a comparison, unknown when a side is null. -/
def comparison (holds : V → V → Bool) : Option V → Option V → Option Bool
  | some b, some c => some (holds b c)
  | _, _ => none

/-- The conditions of which one must hold for two values to be within a tolerance. -/
def withinConditions (tolerance : ColumnTolerance F) (b c : Option V) : List (Option Bool) :=
  valueEqual b c ::
    (tolerance.absolute.toList.map (fun bound =>
        comparison (arithmetic.withinAbsolute bound) b c) ++
      tolerance.relative.toList.map fun bound =>
        comparison (arithmetic.withinRelative bound) b c)

/-- `change_predicate`: the truth of the condition that a column has changed. -/
def changePredicate (tolerance : Option (ColumnTolerance F)) (b c : Option V) : Option Bool :=
  match tolerance with
  | none => some (decide (b ≠ c))
  | some tolerance =>
    truthOr (some (b.isNone != c.isNone))
      (truthAnd (truthAnd (some b.isSome) (some c.isSome))
        (truthNot (truthAny (withinConditions arithmetic tolerance b c))))

def within (tolerance : ColumnTolerance F) (b c : V) : Bool :=
  decide (b = c) || tolerance.absolute.any (fun bound => arithmetic.withinAbsolute bound b c) ||
    tolerance.relative.any fun bound => arithmetic.withinRelative bound b c

/-- Two cells differ when one of them is null, or when they are values that are not the same,
nor within the tolerance if there is one. -/
def differs (tolerance : Option (ColumnTolerance F)) : Option V → Option V → Bool
  | some b, some c =>
    match tolerance with
    | none => decide (b ≠ c)
    | some tolerance => !within arithmetic tolerance b c
  | none, none => false
  | _, _ => true

theorem truthAny_withinConditions (tolerance : ColumnTolerance F) (b c : V) :
    truthAny (withinConditions arithmetic tolerance (some b) (some c)) =
      some (within arithmetic tolerance b c) := by
  have hconditions : withinConditions arithmetic tolerance (some b) (some c) =
      (decide (b = c) ::
        (tolerance.absolute.toList.map (fun bound => arithmetic.withinAbsolute bound b c) ++
          tolerance.relative.toList.map fun bound => arithmetic.withinRelative bound b c)).map
        fun truth => some truth := by
    simp [withinConditions, valueEqual, comparison, Function.comp_def]
  rw [hconditions, truthAny_map_some, List.any_cons, List.any_append, List.any_map, List.any_map,
    within, Bool.or_assoc]
  cases tolerance.absolute <;> cases tolerance.relative <;> simp

/-- The condition on a column is never unknown, and is true of cells that differ. -/
theorem changePredicate_eq (tolerance : Option (ColumnTolerance F)) (b c : Option V) :
    changePredicate arithmetic tolerance b c = some (differs arithmetic tolerance b c) := by
  cases tolerance with
  | none => cases b <;> cases c <;> simp [changePredicate, differs]
  | some tolerance =>
    cases b with
    | none => cases c <;> simp [changePredicate, differs]
    | some b =>
      cases c with
      | none => simp [changePredicate, differs]
      | some c => simp [changePredicate, differs, truthAny_withinConditions]

end Predicate

/-! ## The queries -/

/-- What the first query counts. -/
@[ext]
structure KeyedCounts where
  added : Nat
  removed : Nat
  modified : Nat
  unchanged : Nat
deriving Repr, DecidableEq

/-- Two relations to compare by key: their rows, and the parts of a request that the queries
read. -/
structure KeyedDiff (V F : Type*) where
  candidate : SqlTable V
  base : SqlTable V
  keyColumns : List String
  columns : List String
  tolerances : String → Option (ColumnTolerance F)
  arithmetic : Arithmetic V F

/-- A row of a side, or the nulls in its place. -/
def joinedValue {V : Type*} (table : SqlTable V) (row : Option (List (Option V)))
    (name : String) : Option V :=
  row.bind fun row => columnValue table.columns row name

namespace KeyedDiff

variable {V F : Type*} [DecidableEq V] (d : KeyedDiff V F)
variable {column : String} {counts : KeyedCounts}

omit [DecidableEq V] in
def candidateKey (row : List (Option V)) : List (Option V) :=
  d.candidate.tuple d.keyColumns row

omit [DecidableEq V] in
def baseKey (row : List (Option V)) : List (Option V) :=
  d.base.tuple d.keyColumns row

/-- `IS NOT DISTINCT FROM` of every key column. -/
def sameKey (c b : List (Option V)) : Bool :=
  d.keyColumns.all fun key =>
    decide (columnValue d.base.columns b key = columnValue d.candidate.columns c key)

def equalKey (c b : List (Option V)) : Bool :=
  decide (tupleEqual (d.baseKey b) (d.candidateKey c) = some true)

/-- The condition on a column of a joined row. -/
def columnPredicate (column : String) (c b : Option (List (Option V))) : Option Bool :=
  changePredicate d.arithmetic (d.tolerances column) (joinedValue d.base b column)
    (joinedValue d.candidate c column)

/-- The condition that some compared column has changed, `false` when none is compared. -/
def anyChanged (c b : Option (List (Option V))) : Option Bool :=
  truthAny (d.columns.map fun column => d.columnPredicate column c b)

omit [DecidableEq V] in
/-- Both relations have the columns a query names. -/
def HasColumns (names : List String) : Prop :=
  d.base.HasColumns names ∧ d.candidate.HasColumns names

instance (names : List String) : Decidable (d.HasColumns names) :=
  inferInstanceAs (Decidable (_ ∧ _))

/-- `keyed_counts`: there is no first key without a key, and a query fails that names a column
one of the relations lacks. -/
def keyedCounts : Option KeyedCounts :=
  match d.keyColumns with
  | [] => none
  | firstKey :: _ =>
    if d.HasColumns (d.keyColumns ++ d.columns) then
      let joined := fullOuterJoin d.sameKey d.candidate.rows d.base.rows
      let inBase (b : Option (List (Option V))) := (joinedValue d.base b firstKey).isSome
      let inCandidate (c : Option (List (Option V))) :=
        (joinedValue d.candidate c firstKey).isSome
      some
        { added := joined.countP fun (_, b) => !inBase b
          removed := joined.countP fun (c, _) => !inCandidate c
          modified := joined.countP fun (c, b) =>
            truthAnd (truthAnd (some (inBase b)) (some (inCandidate c)))
              (d.anyChanged c b) = some true
          unchanged := joined.countP fun (c, b) =>
            truthAnd (truthAnd (some (inBase b)) (some (inCandidate c)))
              (truthNot (d.anyChanged c b)) = some true }
    else none

/-- `column_changed`. -/
def columnChanged (column : String) : Option Nat :=
  if d.HasColumns (d.keyColumns ++ [column]) then
    some ((innerJoin d.equalKey d.candidate.rows d.base.rows).countP fun (c, b) =>
      d.columnPredicate column (some c) (some b) = some true)
  else none

/-! ## What the queries count -/

def rowDiffers (column : String) (c b : List (Option V)) : Bool :=
  differs d.arithmetic (d.tolerances column) (columnValue d.base.columns b column)
    (columnValue d.candidate.columns c column)

/-- Two rows differ in some compared column. -/
def rowChanged (c b : List (Option V)) : Bool :=
  d.columns.any fun column => d.rowDiffers column c b

def matched : List (List (Option V) × List (Option V)) :=
  innerJoin d.sameKey d.candidate.rows d.base.rows

def nullFirst (key : List (Option V)) : Bool :=
  decide (key.head? = some none)

theorem columnPredicate_some (column : String) (c b : List (Option V)) :
    d.columnPredicate column (some c) (some b) = some (d.rowDiffers column c b) :=
  changePredicate_eq ..

theorem anyChanged_some (c b : List (Option V)) :
    d.anyChanged (some c) (some b) = some (d.rowChanged c b) := by
  simp only [anyChanged, columnPredicate_some, truthAny_map_some, rowChanged]

theorem sameKey_eq (c b : List (Option V)) :
    d.sameKey c b = decide (d.candidateKey c = d.baseKey b) := by
  rw [Bool.eq_iff_iff, decide_eq_true_iff, sameKey, List.all_eq_true, eq_comm]
  simp only [decide_eq_true_eq, candidateKey, baseKey, SqlTable.tuple, columnTuple,
    List.map_inj_left]

theorem equalKey_eq (c b : List (Option V)) :
    d.equalKey c b = (d.sameKey c b && decide (NoNull (d.candidateKey c))) := by
  rw [Bool.eq_iff_iff, Bool.and_eq_true, equalKey, sameKey_eq, decide_eq_true_iff,
    decide_eq_true_iff, decide_eq_true_iff, tupleEqual_eq_true_iff]
  constructor
  · rintro ⟨hkey, hnull⟩
    exact ⟨hkey.symm, hkey ▸ hnull⟩
  · rintro ⟨hkey, hnull⟩
    exact ⟨hkey.symm, hkey ▸ hnull⟩

theorem mem_matched {c b : List (Option V)} :
    (c, b) ∈ d.matched ↔
      c ∈ d.candidate.rows ∧ b ∈ d.base.rows ∧ d.candidateKey c = d.baseKey b := by
  rw [matched, mem_innerJoin, sameKey_eq, decide_eq_true_iff]

theorem joinedValue_isSome {table : SqlTable V} (firstKey : String) (otherKeys : List String)
    (row : List (Option V)) :
    (joinedValue table (some row) firstKey).isSome =
      !nullFirst (table.tuple (firstKey :: otherKeys) row) := by
  rw [nullFirst, SqlTable.tuple, columnTuple, List.map_cons, List.head?_cons, joinedValue,
    Option.bind_some]
  cases columnValue table.columns row firstKey <;> simp

/-- The rows counted as added: a base row is missed when its first key is null. -/
def addedRows : Nat :=
  d.matched.countP (fun pair => nullFirst (d.baseKey pair.2)) +
    (alone d.sameKey d.candidate.rows d.base.rows).length +
    (alone (fun b c => d.sameKey c b) d.base.rows d.candidate.rows).countP
      fun b => nullFirst (d.baseKey b)

def removedRows : Nat :=
  d.matched.countP (fun pair => nullFirst (d.candidateKey pair.1)) +
    (alone d.sameKey d.candidate.rows d.base.rows).countP
      (fun c => nullFirst (d.candidateKey c)) +
    (alone (fun b c => d.sameKey c b) d.base.rows d.candidate.rows).length

/-- The matched rows whose first key is there, and that differ in a compared column. -/
def modifiedRows : Nat :=
  d.matched.countP fun pair =>
    (!nullFirst (d.baseKey pair.2) && !nullFirst (d.candidateKey pair.1)) &&
      d.rowChanged pair.1 pair.2

/-- The matched rows whose first key is there, and that differ in no compared column. -/
def unchangedRows : Nat :=
  d.matched.countP fun pair =>
    (!nullFirst (d.baseKey pair.2) && !nullFirst (d.candidateKey pair.1)) &&
      !d.rowChanged pair.1 pair.2

theorem keyedCounts_eq (hkey : d.keyColumns ≠ [])
    (hcolumns : d.HasColumns (d.keyColumns ++ d.columns)) :
    d.keyedCounts = some
      { added := d.addedRows
        removed := d.removedRows
        modified := d.modifiedRows
        unchanged := d.unchangedRows } := by
  obtain ⟨firstKey, otherKeys, hkeys⟩ := List.exists_cons_of_ne_nil hkey
  have hbase : ∀ row, (joinedValue d.base (some row) firstKey).isSome =
      !nullFirst (d.baseKey row) := by
    intro row
    rw [joinedValue_isSome firstKey otherKeys row, baseKey, hkeys]
  have hcandidate : ∀ row, (joinedValue d.candidate (some row) firstKey).isSome =
      !nullFirst (d.candidateKey row) := by
    intro row
    rw [joinedValue_isSome firstKey otherKeys row, candidateKey, hkeys]
  have hnone : ∀ table : SqlTable V, (joinedValue table none firstKey).isSome = false :=
    fun _ => rfl
  unfold keyedCounts
  rw [hkeys] at hcolumns ⊢
  simp only [hcolumns, if_true, Option.some.injEq]
  ext <;> simp only [countP_fullOuterJoin, hbase, hcandidate, hnone, anyChanged_some]
  · simp [addedRows, matched]
  · simp [removedRows, matched]
  · simp [modifiedRows, matched]
  · simp [unchangedRows, matched]

/-! ## Counts that partition the rows -/

/-- The key is there, and is unique where nulls are alike. -/
structure Keyed : Prop where
  hasKey : d.keyColumns ≠ []
  hasColumns : d.HasColumns (d.keyColumns ++ d.columns)
  candidate : (d.candidate.rows.map d.candidateKey).Nodup
  base : (d.base.rows.map d.baseKey).Nodup

/-- The matched rows that differ in a column, counted on the candidate's side. -/
def differing (column : String) : Nat :=
  d.candidate.rows.countP fun c =>
    d.base.rows.any fun b => decide (d.candidateKey c = d.baseKey b) && d.rowDiffers column c b

/-- The counts partition the rows of either side, and those of the columns the matched rows. -/
structure PartitionsRows (counts : KeyedCounts) : Prop where
  added : counts.added =
    d.candidate.rows.countP fun c => d.candidateKey c ∉ d.base.rows.map d.baseKey
  removed : counts.removed =
    d.base.rows.countP fun b => d.baseKey b ∉ d.candidate.rows.map d.candidateKey
  candidateRows : counts.added + counts.modified + counts.unchanged = d.candidate.rows.length
  baseRows : counts.removed + counts.modified + counts.unchanged = d.base.rows.length
  columnChanged : ∀ column ∈ d.columns, d.columnChanged column = some (d.differing column)
  le_modified : ∀ column ∈ d.columns, ∀ n, d.columnChanged column = some n →
    n ≤ counts.modified
  modified_eq_zero_iff : counts.modified = 0 ↔
    ∀ column ∈ d.columns, d.columnChanged column = some 0

/-- No first key is null, and rows that match under another null are the same. -/
structure KeysComparable : Prop where
  candidate : ∀ c ∈ d.candidate.rows, (d.candidateKey c).head? ≠ some none
  base : ∀ b ∈ d.base.rows, (d.baseKey b).head? ≠ some none
  matched : ∀ c ∈ d.candidate.rows, ∀ b ∈ d.base.rows, d.candidateKey c = d.baseKey b →
    ¬NoNull (d.candidateKey c) → ∀ column ∈ d.columns, d.rowDiffers column c b = false

variable {d}

theorem Keyed.joinsOnce (h : d.Keyed) : JoinsOnce d.sameKey d.candidate.rows d.base.rows := by
  have hsame : d.sameKey = fun c b => decide (d.candidateKey c = d.baseKey b) := by
    funext c b
    exact d.sameKey_eq c b
  rw [hsame]
  exact joinsOnce_of_nodup h.base

theorem Keyed.joinsOnce_base (h : d.Keyed) :
    JoinsOnce (fun b c => d.sameKey c b) d.base.rows d.candidate.rows := by
  have hsame : (fun b c => d.sameKey c b) =
      fun b c => decide (d.baseKey b = d.candidateKey c) := by
    funext b c
    rw [d.sameKey_eq c b]
    exact decide_eq_decide.2 eq_comm
  rw [hsame]
  exact joinsOnce_of_nodup h.candidate

theorem Keyed.countP_matched_base (h : d.Keyed) (p : List (Option V) → Bool) :
    d.matched.countP (fun pair => p pair.2) +
        (alone (fun b c => d.sameKey c b) d.base.rows d.candidate.rows).countP p =
      d.base.rows.countP p := by
  rw [← h.joinsOnce_base.countP_innerJoin_add p, matched, countP_innerJoin_swap]

theorem Keyed.countP_matched_candidate (h : d.Keyed) (p : List (Option V) → Bool) :
    d.matched.countP (fun pair => p pair.1) +
        (alone d.sameKey d.candidate.rows d.base.rows).countP p = d.candidate.rows.countP p :=
  h.joinsOnce.countP_innerJoin_add p

theorem length_alone_candidate :
    (alone d.sameKey d.candidate.rows d.base.rows).length =
      d.candidate.rows.countP fun c => d.candidateKey c ∉ d.base.rows.map d.baseKey := by
  rw [alone, ← List.countP_eq_length_filter]
  congr 1
  funext c
  rw [Bool.eq_iff_iff, Bool.not_eq_true', decide_eq_true_iff, List.any_eq_false, List.mem_map]
  simp only [sameKey_eq, decide_eq_true_eq, not_exists, not_and]
  exact forall₂_congr fun b _ => not_congr eq_comm

theorem length_alone_base :
    (alone (fun b c => d.sameKey c b) d.base.rows d.candidate.rows).length =
      d.base.rows.countP fun b => d.baseKey b ∉ d.candidate.rows.map d.candidateKey := by
  rw [alone, ← List.countP_eq_length_filter]
  congr 1
  funext b
  rw [Bool.eq_iff_iff, Bool.not_eq_true', decide_eq_true_iff, List.any_eq_false, List.mem_map]
  simp only [sameKey_eq, decide_eq_true_eq, not_exists, not_and]

/-- The second query passes over the matched rows with a null key. -/
theorem columnChanged_eq (hcolumns : d.HasColumns (d.keyColumns ++ [column])) :
    d.columnChanged column = some (d.matched.countP fun pair =>
      d.rowDiffers column pair.1 pair.2 && decide (NoNull (d.candidateKey pair.1))) := by
  have hequal : d.equalKey =
      fun c b => d.sameKey c b && decide (NoNull (d.candidateKey c)) := by
    funext c b
    exact d.equalKey_eq c b
  rw [columnChanged, if_pos hcolumns, hequal, matched, countP_innerJoin_and]
  simp only [columnPredicate_some, Option.some.injEq, Bool.decide_eq_true]

theorem Keyed.differing_eq (h : d.Keyed) (column : String) :
    d.differing column = d.matched.countP fun pair => d.rowDiffers column pair.1 pair.2 := by
  rw [matched, h.joinsOnce.countP_innerJoin]
  simp only [differing, sameKey_eq]

omit [DecidableEq V] in
theorem hasColumns_column (h : d.HasColumns (d.keyColumns ++ d.columns))
    (hcolumn : column ∈ d.columns) : d.HasColumns (d.keyColumns ++ [column]) := by
  have hsub : ∀ name ∈ d.keyColumns ++ [column], name ∈ d.keyColumns ++ d.columns := by
    intro name hname
    rcases List.mem_append.1 hname with hkey | hlast
    · exact List.mem_append_left _ hkey
    · rw [List.mem_singleton.1 hlast]
      exact List.mem_append_right _ hcolumn
  exact ⟨fun name hname => h.1 name (hsub name hname),
    fun name hname => h.2 name (hsub name hname)⟩

theorem hasColumns_of_keyedCounts (h : d.keyedCounts = some counts) :
    d.HasColumns (d.keyColumns ++ d.columns) := by
  unfold keyedCounts at h
  split at h
  · cases h
  · next hkeys =>
      split at h
      · next hcolumns => exact hcolumns
      · cases h

/-- A column count is exact when no matched rows with a null key differ in the column. -/
theorem Keyed.columnChanged_eq_differing_iff (h : d.Keyed) (hcolumn : column ∈ d.columns) :
    d.columnChanged column = some (d.differing column) ↔
      ∀ c ∈ d.candidate.rows, ∀ b ∈ d.base.rows, d.candidateKey c = d.baseKey b →
        ¬NoNull (d.candidateKey c) → d.rowDiffers column c b = false := by
  rw [columnChanged_eq (hasColumns_column h.hasColumns hcolumn), h.differing_eq, Option.some.injEq,
    countP_and_eq_iff]
  constructor
  · intro hall c hc b hb hkey hnull
    rw [← Bool.not_eq_true]
    intro hdiffers
    exact hnull (decide_eq_true_iff.1 (hall (c, b) (d.mem_matched.2 ⟨hc, hb, hkey⟩) hdiffers))
  · rintro hall ⟨c, b⟩ hpair hdiffers
    obtain ⟨hc, hb, hkey⟩ := d.mem_matched.1 hpair
    by_contra hnull
    rw [decide_eq_true_iff] at hnull
    exact Bool.false_ne_true ((hall c hc b hb hkey hnull).symm.trans hdiffers)

/-- The rows of one side that the first query takes for the other's: those with a null first
key. -/
theorem Keyed.added_removed_eq (h : d.Keyed) (hcounts : d.keyedCounts = some counts) :
    counts.added =
        (d.candidate.rows.countP fun c => d.candidateKey c ∉ d.base.rows.map d.baseKey) +
          d.base.rows.countP (fun b => nullFirst (d.baseKey b)) ∧
      counts.removed =
        (d.base.rows.countP fun b => d.baseKey b ∉ d.candidate.rows.map d.candidateKey) +
          d.candidate.rows.countP fun c => nullFirst (d.candidateKey c) := by
  rw [d.keyedCounts_eq h.hasKey h.hasColumns, Option.some.injEq] at hcounts
  subst hcounts
  rw [← h.countP_matched_base fun b => nullFirst (d.baseKey b),
    ← h.countP_matched_candidate fun c => nullFirst (d.candidateKey c),
    ← length_alone_candidate, ← length_alone_base]
  constructor
  · change d.addedRows = _
    unfold addedRows
    omega
  · change d.removedRows = _
    unfold removedRows
    omega

theorem nullFirst_eq_false_iff {key : List (Option V)} :
    nullFirst key = false ↔ key.head? ≠ some none := by
  rw [nullFirst, decide_eq_false_iff_not]

/-- Where no first key is null, a matched row is modified or unchanged. -/
theorem Keyed.modified_unchanged_eq (h : d.Keyed) (hcounts : d.keyedCounts = some counts)
    (hcandidate : ∀ c ∈ d.candidate.rows, (d.candidateKey c).head? ≠ some none)
    (hbase : ∀ b ∈ d.base.rows, (d.baseKey b).head? ≠ some none) :
    counts.modified = d.matched.countP (fun pair => d.rowChanged pair.1 pair.2) ∧
      counts.unchanged = d.matched.countP fun pair => !d.rowChanged pair.1 pair.2 := by
  have hpresent : ∀ pair ∈ d.matched,
      (!nullFirst (d.baseKey pair.2) && !nullFirst (d.candidateKey pair.1)) = true := by
    rintro ⟨c, b⟩ hpair
    obtain ⟨hc, hb, -⟩ := d.mem_matched.1 hpair
    rw [nullFirst_eq_false_iff.2 (hbase b hb), nullFirst_eq_false_iff.2 (hcandidate c hc)]
    rfl
  rw [d.keyedCounts_eq h.hasKey h.hasColumns, Option.some.injEq] at hcounts
  subst hcounts
  constructor
  · apply List.countP_congr
    intro pair hpair
    rw [hpresent pair hpair, Bool.true_and]
  · apply List.countP_congr
    intro pair hpair
    rw [hpresent pair hpair, Bool.true_and]

theorem countP_nullFirst_eq_zero {rows : List (List (Option V))}
    {key : List (Option V) → List (Option V)}
    (h : ∀ row ∈ rows, (key row).head? ≠ some none) :
    rows.countP (fun row => nullFirst (key row)) = 0 := by
  rw [List.countP_eq_zero]
  intro row hrow
  rw [nullFirst_eq_false_iff.2 (h row hrow)]
  exact Bool.false_ne_true

theorem KeysComparable.columnChanged (hcomparable : d.KeysComparable) (h : d.Keyed)
    {column : String} (hcolumn : column ∈ d.columns) :
    d.columnChanged column = some (d.differing column) := by
  rw [h.columnChanged_eq_differing_iff hcolumn]
  intro c hc b hb hkey hnull
  exact hcomparable.matched c hc b hb hkey hnull column hcolumn

theorem Keyed.differing_le (h : d.Keyed) (hcolumn : column ∈ d.columns) :
    d.differing column ≤ d.matched.countP fun pair => d.rowChanged pair.1 pair.2 := by
  rw [h.differing_eq]
  apply List.countP_mono_left
  intro pair _ hdiffers
  exact List.any_eq_true.2 ⟨column, hcolumn, hdiffers⟩

theorem Keyed.countP_rowChanged_eq_zero_iff (h : d.Keyed) :
    d.matched.countP (fun pair => d.rowChanged pair.1 pair.2) = 0 ↔
      ∀ column ∈ d.columns, d.differing column = 0 := by
  rw [List.countP_eq_zero]
  constructor
  · intro hsame column hcolumn
    rw [h.differing_eq, List.countP_eq_zero]
    intro pair hpair hdiffers
    exact hsame pair hpair (List.any_eq_true.2 ⟨column, hcolumn, hdiffers⟩)
  · intro hsame pair hpair hchanged
    obtain ⟨column, hcolumn, hdiffers⟩ := List.any_eq_true.1 hchanged
    have hzero := hsame column hcolumn
    rw [h.differing_eq, List.countP_eq_zero] at hzero
    exact hzero pair hpair hdiffers

/-- Where keys are comparable, the counts partition the rows. -/
theorem Keyed.partitionsRows (h : d.Keyed) (hcounts : d.keyedCounts = some counts)
    (hcomparable : d.KeysComparable) : d.PartitionsRows counts := by
  obtain ⟨hadded, hremoved⟩ := h.added_removed_eq hcounts
  obtain ⟨hmodified, hunchanged⟩ :=
    h.modified_unchanged_eq hcounts hcomparable.candidate hcomparable.base
  rw [countP_nullFirst_eq_zero hcomparable.base, Nat.add_zero] at hadded
  rw [countP_nullFirst_eq_zero hcomparable.candidate, Nat.add_zero] at hremoved
  have hpairs : counts.modified + counts.unchanged = d.matched.length := by
    rw [hmodified, hunchanged,
      List.length_eq_countP_add_countP fun pair => d.rowChanged pair.1 pair.2]
    simp only [Bool.not_eq_true, Bool.decide_eq_false]
  have hcandidateRows := h.joinsOnce.length_innerJoin_add
  rw [length_alone_candidate, ← hadded] at hcandidateRows
  have hbaseRows := h.countP_matched_base fun _ => true
  simp only [List.countP_true] at hbaseRows
  rw [length_alone_base, ← hremoved] at hbaseRows
  refine ⟨hadded, hremoved, ?_, ?_, fun column => hcomparable.columnChanged h, ?_, ?_⟩
  · rw [Nat.add_assoc, hpairs, Nat.add_comm]
    exact hcandidateRows
  · rw [Nat.add_assoc, hpairs, Nat.add_comm]
    exact hbaseRows
  · intro column hcolumn n hn
    rw [hcomparable.columnChanged h hcolumn, Option.some.injEq] at hn
    rw [← hn, hmodified]
    exact h.differing_le hcolumn
  · rw [hmodified, h.countP_rowChanged_eq_zero_iff]
    refine forall₂_congr fun column hcolumn => ?_
    rw [hcomparable.columnChanged h hcolumn, Option.some.injEq]

/-- The counts partition the rows of both sides exactly when the first column of every key is
not null, and matched rows with a null elsewhere in their key do not differ. -/
theorem partitionsRows_iff (h : d.Keyed) :
    (∃ counts, d.keyedCounts = some counts ∧ d.PartitionsRows counts) ↔ d.KeysComparable := by
  constructor
  · rintro ⟨counts, hcounts, hpartitions⟩
    obtain ⟨hadded, hremoved⟩ := h.added_removed_eq hcounts
    rw [hpartitions.added, Nat.left_eq_add, List.countP_eq_zero] at hadded
    rw [hpartitions.removed, Nat.left_eq_add, List.countP_eq_zero] at hremoved
    refine ⟨fun c hc => ?_, fun b hb => ?_, fun c hc b hb hkey hnull column hcolumn => ?_⟩
    · exact nullFirst_eq_false_iff.1 (Bool.eq_false_iff.2 (hremoved c hc))
    · exact nullFirst_eq_false_iff.1 (Bool.eq_false_iff.2 (hadded b hb))
    · exact (h.columnChanged_eq_differing_iff hcolumn).1
        (hpartitions.columnChanged column hcolumn) c hc b hb hkey hnull
  · intro hcomparable
    exact ⟨_, d.keyedCounts_eq h.hasKey h.hasColumns,
      h.partitionsRows (d.keyedCounts_eq h.hasKey h.hasColumns) hcomparable⟩

/-! ## Rows with a null key -/

namespace Sample

def distances : Arithmetic Nat Nat where
  withinAbsolute bound b c := decide (b - c + (c - b) ≤ bound)
  withinRelative bound b c := decide (b - c + (c - b) ≤ bound * max b c)

def results (rows : List (List (Option Nat))) (h : ∀ row ∈ rows, row.length = 3) :
    SqlTable Nat where
  columns := ["id", "run", "value"]
  rows := rows
  distinct := by decide +kernel
  widths := h

def oneResult (id run : Option Nat) (before after : Nat) : KeyedDiff Nat Nat where
  candidate := results [[id, run, some after]] (by simp)
  base := results [[id, run, some before]] (by simp)
  keyColumns := ["id", "run"]
  columns := ["value"]
  tolerances := fun _ => some { absolute := some 1, relative := none }
  arithmetic := distances

/-- A result whose id is null is counted as added and as removed. -/
theorem nullKey_counts : (oneResult none (some 1) 10 12).Keyed ∧
    (oneResult none (some 1) 10 12).keyedCounts =
      some { added := 1, removed := 1, modified := 0, unchanged := 0 } ∧
    ¬∃ counts, (oneResult none (some 1) 10 12).keyedCounts = some counts ∧
      (oneResult none (some 1) 10 12).PartitionsRows counts := by
  have hcounts : (oneResult none (some 1) 10 12).keyedCounts =
      some { added := 1, removed := 1, modified := 0, unchanged := 0 } := by
    decide +kernel
  refine ⟨⟨by decide, by decide +kernel, by decide +kernel, by decide +kernel⟩, hcounts, ?_⟩
  rintro ⟨counts, heq, hpartitions⟩
  rw [hcounts, Option.some.injEq] at heq
  subst heq
  exact absurd hpartitions.added (by decide +kernel)

theorem partitionsRows_oneResult :
    (∃ counts, (oneResult (some 7) (some 1) 10 12).keyedCounts = some counts ∧
      (oneResult (some 7) (some 1) 10 12).PartitionsRows counts) ↔
      (oneResult (some 7) (some 1) 10 12).KeysComparable :=
  partitionsRows_iff ⟨by decide, by decide +kernel, by decide +kernel, by decide +kernel⟩

example : (oneResult (some 7) none 10 12).keyedCounts =
      some { added := 0, removed := 0, modified := 1, unchanged := 0 } ∧
    (oneResult (some 7) none 10 12).columnChanged "value" = some 0 := by
  decide +kernel

end Sample

end KeyedDiff

end PhloTransform.Engine
