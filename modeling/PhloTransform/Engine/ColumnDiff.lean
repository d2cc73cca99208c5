import PhloTransform.Core.TypeText
import PhloTransform.Engine.BranchDiff
import PhloTransform.Engine.Probes
import PhloTransform.Library.Bags
import PhloTransform.Library.Renames

/-!
# Column diffs

The columns of a candidate relation are compared with those of the base by name.  A declared
rename joins a column that went away and one that came into one entry.

Main results:

- Theorem `ColumnDiff.mem_compareColumnLists_iff`: where the entries come from.
- Theorem `ColumnDiff.mentions_goneChange_iff`: the names an entry of a missing column mentions.
-/

namespace PhloTransform.Engine

open Core (DataType)
open Library (Table ambiguousNames claimants resolvedRenames)

/-! ## Two column lists -/

/-- The type that is parsed from the adapter's spelling. -/
def ColumnInfo.type (column : ColumnInfo) : DataType :=
  DataType.parseTrino column.dataType

/-- The columns of a relation, of distinct names. -/
abbrev ColumnTable := Table ColumnInfo.name

/-- Declared renames: the candidate's name and the base column it was renamed from. -/
abbrev RenameTable := Table (Prod.fst : String × String → String)

namespace ColumnDiff

def names (columns : ColumnTable) : List String :=
  columns.rows.map ColumnInfo.name

/-- The columns in the order of their names. -/
def byName (columns : ColumnTable) : List ColumnInfo :=
  columns.rows.insertionSort fun a b => a.name ≤ b.name

/-- The types of a column that changed its name, when they differ. -/
def typeNote (base candidate : DataType) : String :=
  if candidate ≠ base then " (type " ++ base.display ++ " -> " ++ candidate.display ++ ")" else ""

def typeChanges (base candidate : ColumnInfo) : List SchemaChange :=
  if candidate.type ≠ base.type then
    [{ column := base.name
       kind := "changed"
       detail := base.type.display ++ " -> " ++ candidate.type.display
       safety := if candidate.type.isNumeric && base.type.isNumeric then "review" else "error" }]
  else []

def nullabilityChanges (base candidate : ColumnInfo) : List SchemaChange :=
  if candidate.nullable ≠ base.nullable then
    [{ column := base.name
       kind := "nullability"
       detail := if candidate.nullable then "not null -> nullable" else "nullable -> not null"
       -- Losing the guarantee breaks consumers, gaining it rejects producer data.
       safety := if candidate.nullable then "error" else "review" }]
  else []

section Compare

variable (candidate base : ColumnTable) (renames : RenameTable)

/-- Renames that resolve: the new name is the candidate's alone, the old one is in the base
and claimed once. -/
def columnRenames : List (String × String) :=
  resolvedRenames (names base) (names candidate) renames.rows

def renamedAway (old : String) : Option String :=
  ((columnRenames candidate base renames).find? fun rename => decide (rename.2 = old)).map Prod.fst

/-- The entry of a base column that the candidate lacks. -/
def goneChange (column : ColumnInfo) : SchemaChange :=
  match renamedAway candidate base renames column.name with
  | some new =>
    { column := new
      kind := "renamed"
      detail := "`" ++ column.name ++ "` renamed to `" ++ new ++ "`" ++
        (candidate.get? new).elim "" fun renamed => typeNote column.type renamed.type
      safety := "full_rebuild_required" }
  | none =>
    { column := column.name
      kind := "removed"
      detail := column.type.display ++ " removed"
      safety := "full_rebuild_required" }

def baseChanges (column : ColumnInfo) : List SchemaChange :=
  match candidate.get? column.name with
  | none => [goneChange candidate base renames column]
  | some kept => typeChanges column kept ++ nullabilityChanges column kept

/-- The entry of a column that the base lacks and no rename explains. -/
def candidateChanges (column : ColumnInfo) : List SchemaChange :=
  if column.name ∉ names base ∧
      column.name ∉ (columnRenames candidate base renames).map Prod.fst then
    [{ column := column.name
       kind := "added"
       detail := column.type.display ++ " added"
       safety := "safe" }]
  else []

def ambiguousRenames : List SchemaChange :=
  ((ambiguousNames renames.rows).filter fun old => decide (old ∈ names base)).map fun old =>
    { column := old
      kind := "rename_ambiguous"
      detail := "declared renames for `" ++ old ++ "` are ambiguous: " ++
        ", ".intercalate (claimants renames.rows old)
      safety := "review" }

/-- `compare_column_lists`. -/
def compareColumnLists : List SchemaChange :=
  if candidate.rows.isEmpty && base.rows.isEmpty then []
  else
    (ambiguousRenames base renames ++
      (byName base).flatMap (baseChanges candidate base renames) ++
      (byName candidate).flatMap (candidateChanges candidate base renames)).insertionSort
        fun left right => left.column ≤ right.column

end Compare

/-! ## Where the entries come from -/

section Entries

variable {candidate base : ColumnTable} {renames : RenameTable}
variable {columns : ColumnTable} {new old : String}

theorem mem_byName {column : ColumnInfo} : column ∈ byName columns ↔ column ∈ columns.rows :=
  List.mem_insertionSort _

theorem byName_nodup (columns : ColumnTable) : (byName columns).Nodup :=
  (List.perm_insertionSort _ _).nodup_iff.2 (columns.nodup_keys.of_map _)

theorem mem_names {column : ColumnInfo} (h : column ∈ columns.rows) : column.name ∈ names columns :=
  List.mem_map_of_mem h

theorem get?_eq_none_iff {name : String} : columns.get? name = none ↔ name ∉ names columns := by
  rw [Table.get?, List.find?_eq_none, names, List.mem_map]
  simp

/-- The diff lists the ambiguous renames, then the base columns, then the candidate's. -/
theorem compareColumnLists_perm :
    (compareColumnLists candidate base renames).Perm
      (ambiguousRenames base renames ++
        (byName base).flatMap (baseChanges candidate base renames) ++
        (byName candidate).flatMap (candidateChanges candidate base renames)) := by
  unfold compareColumnLists
  split
  · next hempty =>
      rw [Bool.and_eq_true, List.isEmpty_iff, List.isEmpty_iff] at hempty
      have hambiguous : ambiguousRenames base renames = [] := by
        simp [ambiguousRenames, names, hempty.2]
      rw [hambiguous, byName, byName, hempty.1, hempty.2]
      exact List.Perm.refl _
  · exact List.perm_insertionSort _ _

theorem mem_compareColumnLists_iff {change : SchemaChange} :
    change ∈ compareColumnLists candidate base renames ↔
      change ∈ ambiguousRenames base renames ∨
        (∃ column ∈ base.rows, change ∈ baseChanges candidate base renames column) ∨
        ∃ column ∈ candidate.rows, change ∈ candidateChanges candidate base renames column := by
  rw [compareColumnLists_perm.mem_iff, List.mem_append, List.mem_append, List.mem_flatMap,
    List.mem_flatMap, or_assoc]
  simp only [mem_byName]

theorem renamedAway_eq_some_iff :
    renamedAway candidate base renames old = some new ↔
      (new, old) ∈ columnRenames candidate base renames := by
  rw [renamedAway, Option.map_eq_some_iff]
  constructor
  · rintro ⟨⟨a, b⟩, hfind, rfl⟩
    have hold := List.find?_some hfind
    obtain rfl : b = old := of_decide_eq_true hold
    exact List.mem_of_find?_eq_some hfind
  · intro hmem
    cases hfind : (columnRenames candidate base renames).find?
        fun rename => decide (rename.2 = old) with
    | none =>
      rw [List.find?_eq_none] at hfind
      exact absurd (decide_eq_true rfl) (hfind _ hmem)
    | some rename =>
      obtain ⟨a, b⟩ := rename
      have hold := List.find?_some hfind
      obtain rfl : b = old := of_decide_eq_true hold
      exact ⟨(a, b), rfl,
        Library.resolvedRenames_unique (List.mem_of_find?_eq_some hfind) hmem⟩

theorem renamedAway_eq_none_iff :
    renamedAway candidate base renames old = none ↔
      ∀ new, (new, old) ∉ columnRenames candidate base renames := by
  rw [Option.eq_none_iff_forall_ne_some]
  simp only [ne_eq, renamedAway_eq_some_iff]

theorem get?_of_mem_columnRenames (h : (new, old) ∈ columnRenames candidate base renames) :
    renames.get? new = some (new, old) :=
  (renames.mem_rows_iff (new, old)).1 (Library.mem_resolvedRenames_iff.1 h).1

theorem eq_of_mem_columnRenames {old' : String}
    (h : (new, old) ∈ columnRenames candidate base renames)
    (h' : (new, old') ∈ columnRenames candidate base renames) : old = old' := by
  have hdeclared := (get?_of_mem_columnRenames h).symm.trans (get?_of_mem_columnRenames h')
  simpa using hdeclared

end Entries

/-! ## What an entry mentions -/

/-- An entry mentions the name of the column that is added or removed, or both names of a
rename: the new one and the one it is declared for. -/
def mentions (renames : RenameTable) (name : String) (change : SchemaChange) : Bool :=
  (change.kind == "added" || change.kind == "removed") && change.column == name ||
    change.kind == "renamed" && (change.column == name ||
      (renames.get? change.column).map Prod.snd == some name)

/-- `error` and `full_rebuild_required`: what promotion gates on. -/
def isBreaking (change : SchemaChange) : Bool :=
  change.safety == "error" || change.safety == "full_rebuild_required"

section Mentions

variable {candidate base : ColumnTable} {renames : RenameTable} {name : String}
variable {column : ColumnInfo}

/-- The entry of a missing column mentions the column, and the name it was given. -/
theorem mentions_goneChange_iff :
    mentions renames name (goneChange candidate base renames column) = true ↔
      column.name = name ∨ (name, column.name) ∈ columnRenames candidate base renames := by
  unfold goneChange
  cases haway : renamedAway candidate base renames column.name with
  | none =>
    have hnone := renamedAway_eq_none_iff.1 haway name
    simp [mentions, hnone]
  | some new =>
    have hnew := renamedAway_eq_some_iff.1 haway
    have hdeclared := get?_of_mem_columnRenames hnew
    have hsame : (name, column.name) ∈ columnRenames candidate base renames ↔ new = name := by
      constructor
      · intro hname
        exact Library.resolvedRenames_unique hnew hname
      · rintro rfl
        exact hnew
    rw [hsame]
    simp [mentions, hdeclared, or_comm]

theorem countP_ambiguousRenames : (ambiguousRenames base renames).countP (mentions renames name) =
    0 := by
  rw [List.countP_eq_zero]
  intro change hchange
  obtain ⟨old, -, rfl⟩ := List.mem_map.1 hchange
  simp [mentions]

theorem countP_baseChanges_of_kept (h : column.name ∈ names candidate) :
    (baseChanges candidate base renames column).countP (mentions renames name) = 0 := by
  unfold baseChanges
  cases hget : candidate.get? column.name with
  | none => exact absurd h (get?_eq_none_iff.1 hget)
  | some kept =>
    rw [List.countP_append, typeChanges, nullabilityChanges]
    split_ifs <;> simp [mentions]

theorem countP_baseChanges_of_gone (h : column.name ∉ names candidate) :
    (baseChanges candidate base renames column).countP (mentions renames name) =
      if column.name = name ∨ (name, column.name) ∈ columnRenames candidate base renames then 1
      else 0 := by
  rw [baseChanges, get?_eq_none_iff.2 h]
  simp only [List.countP_singleton, mentions_goneChange_iff]

theorem countP_baseChanges_eq_zero (hname : column.name ≠ name)
    (hrenamed : (name, column.name) ∉ columnRenames candidate base renames) :
    (baseChanges candidate base renames column).countP (mentions renames name) = 0 := by
  by_cases hkept : column.name ∈ names candidate
  · exact countP_baseChanges_of_kept hkept
  · rw [countP_baseChanges_of_gone hkept, if_neg (not_or.2 ⟨hname, hrenamed⟩)]

theorem countP_candidateChanges :
    (candidateChanges candidate base renames column).countP (mentions renames name) =
      if column.name = name ∧ column.name ∉ names base ∧
        column.name ∉ (columnRenames candidate base renames).map Prod.fst then 1 else 0 := by
  unfold candidateChanges
  split_ifs with hadded hboth hboth
  · simp [mentions, hboth.1]
  · have hne : column.name ≠ name := fun hname => hboth ⟨hname, hadded⟩
    simp [mentions, hne]
  · exact absurd hboth.2 hadded
  · rfl

theorem countP_compareColumnLists :
    (compareColumnLists candidate base renames).countP (mentions renames name) =
      ((byName base).flatMap (baseChanges candidate base renames)).countP (mentions renames name) +
        ((byName candidate).flatMap (candidateChanges candidate base renames)).countP
          (mentions renames name) := by
  rw [compareColumnLists_perm.countP_eq, List.countP_append, List.countP_append,
    countP_ambiguousRenames, Nat.zero_add]

/-- A base column that the candidate lacks is mentioned once. -/
theorem countP_of_removed (hbase : name ∈ names base) (hgone : name ∉ names candidate) :
    (compareColumnLists candidate base renames).countP (mentions renames name) = 1 := by
  obtain ⟨column, hcolumn, rfl⟩ := List.mem_map.1 hbase
  have hfrom : ((byName base).flatMap (baseChanges candidate base renames)).countP
      (mentions renames column.name) = 1 := by
    rw [Library.countP_flatMap_eq (byName_nodup base) (mem_byName.2 hcolumn)]
    · rw [countP_baseChanges_of_gone hgone, if_pos (.inl rfl)]
    · intro other hother hne
      apply countP_baseChanges_eq_zero
      · intro hsame
        exact hne (List.inj_on_of_nodup_map base.nodup_keys (mem_byName.1 hother) hcolumn hsame)
      · intro hrenamed
        exact (Library.mem_resolvedRenames_iff.1 hrenamed).2.2.2.1 hbase
  have hto : ((byName candidate).flatMap (candidateChanges candidate base renames)).countP
      (mentions renames column.name) = 0 := by
    apply Library.countP_flatMap_eq_zero
    intro other hother
    rw [countP_candidateChanges, if_neg]
    rintro ⟨hsame, -⟩
    exact hgone (hsame ▸ mem_names (mem_byName.1 hother))
  rw [countP_compareColumnLists, hfrom, hto]

/-- The entry of a column of the candidate alone, unless a rename explains the column. -/
theorem countP_candidateChanges_of_added (hcandidate : name ∈ names candidate)
    (hnew : name ∉ names base) :
    ((byName candidate).flatMap (candidateChanges candidate base renames)).countP
        (mentions renames name) =
      if name ∈ (columnRenames candidate base renames).map Prod.fst then 0 else 1 := by
  obtain ⟨added, hadded, hname⟩ := List.mem_map.1 hcandidate
  rw [Library.countP_flatMap_eq (byName_nodup candidate) (mem_byName.2 hadded)]
  · rw [countP_candidateChanges, hname]
    split_ifs with hadded hrenamed hrenamed
    · exact absurd hrenamed hadded.2.2
    · rfl
    · rfl
    · exact absurd ⟨rfl, hnew, hrenamed⟩ hadded
  · intro other hother hne
    rw [countP_candidateChanges, if_neg]
    rintro ⟨hsame, -⟩
    exact hne (List.inj_on_of_nodup_map candidate.nodup_keys (mem_byName.1 hother) hadded
      (hsame.trans hname.symm))

/-- The entry of the column that a new name is declared for, unless that column is kept. -/
theorem countP_baseChanges_of_renamed (hcolumn : column ∈ base.rows) (hnew : name ∉ names base)
    (hrenamed : (name, column.name) ∈ columnRenames candidate base renames) :
    ((byName base).flatMap (baseChanges candidate base renames)).countP (mentions renames name) =
      if column.name ∈ names candidate then 0 else 1 := by
  rw [Library.countP_flatMap_eq (byName_nodup base) (mem_byName.2 hcolumn)]
  · split_ifs with hkept
    · exact countP_baseChanges_of_kept hkept
    · rw [countP_baseChanges_of_gone hkept, if_pos (.inr hrenamed)]
  · intro other hother hne
    apply countP_baseChanges_eq_zero
    · intro hsame
      exact hnew (hsame ▸ mem_names (mem_byName.1 hother))
    · intro hother'
      exact hne (List.inj_on_of_nodup_map base.nodup_keys (mem_byName.1 hother) hcolumn
        (eq_of_mem_columnRenames hother' hrenamed))

/-- A column of the candidate alone is mentioned once, unless it is renamed from a column that
is still there. -/
theorem countP_of_added (hcandidate : name ∈ names candidate) (hnew : name ∉ names base) :
    (compareColumnLists candidate base renames).countP (mentions renames name) =
      if ∃ old ∈ names candidate, (name, old) ∈ columnRenames candidate base renames then 0
      else 1 := by
  rw [countP_compareColumnLists, countP_candidateChanges_of_added hcandidate hnew]
  by_cases hrenamed : name ∈ (columnRenames candidate base renames).map Prod.fst
  · obtain ⟨⟨new, old⟩, hmem, rfl⟩ := List.mem_map.1 hrenamed
    have hold := (Library.mem_resolvedRenames_iff.1 hmem).2.2.2.2
    obtain ⟨column, hcolumn, rfl⟩ := List.mem_map.1 hold
    have hkept : (∃ old ∈ names candidate, (new, old) ∈ columnRenames candidate base renames) ↔
        column.name ∈ names candidate := by
      constructor
      · rintro ⟨old, hmemOld, hrenamedOld⟩
        exact eq_of_mem_columnRenames hrenamedOld hmem ▸ hmemOld
      · intro hmemOld
        exact ⟨column.name, hmemOld, hmem⟩
    rw [countP_baseChanges_of_renamed hcolumn hnew hmem, if_pos hrenamed]
    simp only [hkept, Nat.add_zero]
  · have hnever : ∀ old, (name, old) ∉ columnRenames candidate base renames := by
      intro old hmem
      exact hrenamed (List.mem_map.2 ⟨_, hmem, rfl⟩)
    have hfrom : ((byName base).flatMap (baseChanges candidate base renames)).countP
        (mentions renames name) = 0 := by
      apply Library.countP_flatMap_eq_zero
      intro column hcolumn
      apply countP_baseChanges_eq_zero
      · intro hsame
        exact hnew (hsame ▸ mem_names (mem_byName.1 hcolumn))
      · exact hnever column.name
    have hnot : ¬ ∃ old ∈ names candidate, (name, old) ∈ columnRenames candidate base renames := by
      rintro ⟨old, -, hmem⟩
      exact hnever old hmem
    rw [hfrom, if_neg hrenamed, if_neg hnot]

end Mentions

/-! ## Accounting for every column -/

section Accounts

variable (candidate base : ColumnTable) (renames : RenameTable)
variable {change : SchemaChange} {old new : ColumnInfo}

/-- What a diff that accounts for every column tells. -/
structure AccountsForColumns : Prop where
  /-- A name of one side alone is mentioned by exactly one entry. -/
  once : ∀ name, (name ∈ names candidate ↔ name ∉ names base) →
    name ∈ names candidate ∨ name ∈ names base →
    (compareColumnLists candidate base renames).countP (mentions renames name) = 1
  /-- A rename joins a column that went away and one that came. -/
  renamed : ∀ change ∈ compareColumnLists candidate base renames, change.kind = "renamed" →
    ∃ old, renames.get? change.column = some (change.column, old) ∧
      old ∈ names base ∧ old ∉ names candidate ∧
      change.column ∈ names candidate ∧ change.column ∉ names base
  /-- A column of both sides whose type or nullability differs is reported. -/
  compared : ∀ old ∈ base.rows, ∀ new, candidate.get? old.name = some new →
    (new.type ≠ old.type → ∃ change ∈ compareColumnLists candidate base renames,
      change.column = old.name ∧ change.kind = "changed") ∧
    (new.nullable ≠ old.nullable → ∃ change ∈ compareColumnLists candidate base renames,
      change.column = old.name ∧ change.kind = "nullability")
  gone : ∀ change ∈ compareColumnLists candidate base renames,
    change.kind = "removed" ∨ change.kind = "renamed" → isBreaking change = true
  retyped : ∀ old ∈ base.rows, ∀ new, candidate.get? old.name = some new →
    new.type.evolves old.type = false →
    ∃ change ∈ compareColumnLists candidate base renames,
      change.column = old.name ∧ change.kind = "changed" ∧ isBreaking change = true
  relaxed : ∀ old ∈ base.rows, ∀ new, candidate.get? old.name = some new →
    old.nullable = false → new.nullable = true →
    ∃ change ∈ compareColumnLists candidate base renames,
      change.column = old.name ∧ change.kind = "nullability" ∧ isBreaking change = true

variable {candidate base renames}

theorem kind_of_mem_ambiguousRenames (h : change ∈ ambiguousRenames base renames) :
    change.kind = "rename_ambiguous" := by
  obtain ⟨old, -, rfl⟩ := List.mem_map.1 h
  rfl

theorem kind_of_mem_candidateChanges {column : ColumnInfo}
    (h : change ∈ candidateChanges candidate base renames column) : change.kind = "added" := by
  unfold candidateChanges at h
  split at h
  · rw [List.mem_singleton.1 h]
  · cases h

/-- An entry about a base column that the candidate lacks. -/
theorem exists_gone_of_kind (h : change ∈ compareColumnLists candidate base renames)
    (hkind : change.kind = "removed" ∨ change.kind = "renamed") :
    ∃ column ∈ base.rows, column.name ∉ names candidate ∧
      change = goneChange candidate base renames column := by
  rcases mem_compareColumnLists_iff.1 h with hmem | ⟨column, hcolumn, hmem⟩ | ⟨column, -, hmem⟩
  · rw [kind_of_mem_ambiguousRenames hmem] at hkind
    simp at hkind
  · unfold baseChanges at hmem
    cases hget : candidate.get? column.name with
    | none =>
      simp only [hget, List.mem_singleton] at hmem
      exact ⟨column, hcolumn, get?_eq_none_iff.1 hget, hmem⟩
    | some kept =>
      simp only [hget, List.mem_append, typeChanges, nullabilityChanges] at hmem
      have hother : change.kind = "changed" ∨ change.kind = "nullability" := by
        rcases hmem with hmem | hmem
        · split at hmem
          · exact .inl (by rw [List.mem_singleton.1 hmem])
          · cases hmem
        · split at hmem
          · exact .inr (by rw [List.mem_singleton.1 hmem])
          · cases hmem
      rcases hother with hother | hother
      · simp [hother] at hkind
      · simp [hother] at hkind
  · rw [kind_of_mem_candidateChanges hmem] at hkind
    simp at hkind

theorem mem_of_kept (hold : old ∈ base.rows) (hnew : candidate.get? old.name = some new)
    (h : change ∈ typeChanges old new ++ nullabilityChanges old new) :
    change ∈ compareColumnLists candidate base renames := by
  rw [mem_compareColumnLists_iff]
  refine .inr (.inl ⟨old, hold, ?_⟩)
  rw [baseChanges, hnew]
  exact h

/-- A type that differs is reported, as breaking unless both are numbers. -/
theorem exists_changed (hold : old ∈ base.rows) (hnew : candidate.get? old.name = some new)
    (hdiffer : new.type ≠ old.type) :
    ∃ change ∈ compareColumnLists candidate base renames, change.column = old.name ∧
      change.kind = "changed" ∧
      isBreaking change = !(new.type.isNumeric && old.type.isNumeric) := by
  have hne : typeChanges old new ≠ [] := by
    rw [typeChanges, if_pos hdiffer]
    exact List.cons_ne_nil _ _
  refine ⟨(typeChanges old new).head hne,
    mem_of_kept hold hnew (List.mem_append_left _ (List.head_mem hne)), ?_⟩
  simp only [typeChanges, if_pos hdiffer, List.head_cons, isBreaking, true_and]
  cases new.type.isNumeric && old.type.isNumeric <;> rfl

/-- A nullability that differs is reported, as breaking when the column becomes nullable. -/
theorem exists_nullability (hold : old ∈ base.rows) (hnew : candidate.get? old.name = some new)
    (hdiffer : new.nullable ≠ old.nullable) :
    ∃ change ∈ compareColumnLists candidate base renames, change.column = old.name ∧
      change.kind = "nullability" ∧ isBreaking change = new.nullable := by
  have hne : nullabilityChanges old new ≠ [] := by
    rw [nullabilityChanges, if_pos hdiffer]
    exact List.cons_ne_nil _ _
  refine ⟨(nullabilityChanges old new).head hne,
    mem_of_kept hold hnew (List.mem_append_right _ (List.head_mem hne)), ?_⟩
  simp only [nullabilityChanges, if_pos hdiffer, List.head_cons, isBreaking, true_and]
  cases new.nullable <;> rfl

theorem mem_typeChanges_of_changed (h : change ∈ compareColumnLists candidate base renames)
    (hkind : change.kind = "changed") (hold : old ∈ base.rows)
    (hnew : candidate.get? old.name = some new) (hname : change.column = old.name) :
    change ∈ typeChanges old new := by
  rcases mem_compareColumnLists_iff.1 h with hmem | ⟨column, hcolumn, hmem⟩ | ⟨column, -, hmem⟩
  · rw [kind_of_mem_ambiguousRenames hmem] at hkind
    simp at hkind
  · unfold baseChanges at hmem
    cases hget : candidate.get? column.name with
    | none =>
      simp only [hget, List.mem_singleton] at hmem
      rw [hmem, goneChange] at hkind
      split at hkind <;> simp at hkind
    | some kept =>
      simp only [hget, List.mem_append] at hmem
      rcases hmem with hmem | hmem
      · have hcolumnName : change.column = column.name := by
          unfold typeChanges at hmem
          split at hmem
          · rw [List.mem_singleton.1 hmem]
          · cases hmem
        have hsame : column = old := List.inj_on_of_nodup_map base.nodup_keys hcolumn hold
          (hcolumnName.symm.trans hname)
        subst hsame
        obtain rfl : kept = new := Option.some.inj (hget.symm.trans hnew)
        exact hmem
      · unfold nullabilityChanges at hmem
        split at hmem
        · rw [List.mem_singleton.1 hmem] at hkind
          simp at hkind
        · cases hmem
  · rw [kind_of_mem_candidateChanges hmem] at hkind
    simp at hkind

theorem isBreaking_goneChange (column : ColumnInfo) :
    isBreaking (goneChange candidate base renames column) = true := by
  unfold goneChange
  split <;> simp [isBreaking]

/-- Whatever is declared, a rename joins a column that went away and one that came. -/
theorem renamed_of_mem (h : change ∈ compareColumnLists candidate base renames)
    (hkind : change.kind = "renamed") :
    ∃ old, renames.get? change.column = some (change.column, old) ∧
      old ∈ names base ∧ old ∉ names candidate ∧
      change.column ∈ names candidate ∧ change.column ∉ names base := by
  obtain ⟨column, hcolumn, hgone, rfl⟩ := exists_gone_of_kind h (.inr hkind)
  unfold goneChange at hkind ⊢
  cases haway : renamedAway candidate base renames column.name with
  | none => simp [haway] at hkind
  | some new =>
    have hnew := renamedAway_eq_some_iff.1 haway
    have hresolved := Library.mem_resolvedRenames_iff.1 hnew
    exact ⟨column.name, get?_of_mem_columnRenames hnew, mem_names hcolumn, hgone,
      hresolved.2.2.1, hresolved.2.2.2.1⟩

/-- The diff accounts for every column exactly when every column that a rename resolves is gone
from the candidate, and no number of both sides is narrowed. -/
theorem accountsForColumns_iff (candidate base : ColumnTable) (renames : RenameTable) :
    AccountsForColumns candidate base renames ↔
      (∀ new old, (new, old) ∈ columnRenames candidate base renames → old ∉ names candidate) ∧
      ∀ old ∈ base.rows, ∀ new, candidate.get? old.name = some new →
        new.type.isNumeric = true → old.type.isNumeric = true →
        new.type.evolves old.type = true := by
  constructor
  · intro h
    constructor
    · intro new old hrenamed hkept
      have hresolved := Library.mem_resolvedRenames_iff.1 hrenamed
      have hmentioned := h.once new
        ⟨fun _ => hresolved.2.2.2.1, fun _ => hresolved.2.2.1⟩ (.inl hresolved.2.2.1)
      rw [countP_of_added hresolved.2.2.1 hresolved.2.2.2.1, if_pos ⟨old, hkept, hrenamed⟩]
        at hmentioned
      cases hmentioned
    · intro old hold new hnew hnumeric hnumeric'
      by_contra hnarrow
      rw [Bool.not_eq_true] at hnarrow
      obtain ⟨change, hchange, hname, hkind, hbreaking⟩ := h.retyped old hold new hnew hnarrow
      have hmem := mem_typeChanges_of_changed hchange hkind hold hnew hname
      unfold typeChanges at hmem
      split at hmem
      · rw [List.mem_singleton.1 hmem] at hbreaking
        simp [isBreaking, hnumeric, hnumeric'] at hbreaking
      · cases hmem
  · rintro ⟨hgone, hwiden⟩
    constructor
    · intro name hone hsome
      by_cases hcandidate : name ∈ names candidate
      · rw [countP_of_added hcandidate (hone.1 hcandidate), if_neg]
        rintro ⟨old, hold, hrenamed⟩
        exact hgone name old hrenamed hold
      · have hbase := hsome.resolve_left hcandidate
        exact countP_of_removed hbase hcandidate
    · intro change hchange hkind
      exact renamed_of_mem hchange hkind
    · intro old hold new hnew
      constructor
      · intro hdiffer
        obtain ⟨change, hchange, hname, hkind, -⟩ := exists_changed hold hnew hdiffer
        exact ⟨change, hchange, hname, hkind⟩
      · intro hdiffer
        obtain ⟨change, hchange, hname, hkind, -⟩ := exists_nullability hold hnew hdiffer
        exact ⟨change, hchange, hname, hkind⟩
    · intro change hchange hkind
      obtain ⟨column, -, -, rfl⟩ := exists_gone_of_kind hchange hkind
      exact isBreaking_goneChange column
    · intro old hold new hnew hnarrow
      have hdiffer : new.type ≠ old.type := by
        intro hsame
        simp [DataType.evolves, hsame] at hnarrow
      have hnumeric : (new.type.isNumeric && old.type.isNumeric) = false := by
        by_contra hboth
        rw [Bool.not_eq_false, Bool.and_eq_true] at hboth
        rw [hwiden old hold new hnew hboth.1 hboth.2] at hnarrow
        cases hnarrow
      obtain ⟨change, hchange, hname, hkind, hbreaking⟩ := exists_changed hold hnew hdiffer
      rw [hnumeric] at hbreaking
      exact ⟨change, hchange, hname, hkind, hbreaking⟩
    · intro old hold new hnew hnotNull hnullable
      have hdiffer : new.nullable ≠ old.nullable := by simp [hnotNull, hnullable]
      obtain ⟨change, hchange, hname, hkind, hbreaking⟩ := exists_nullability hold hnew hdiffer
      exact ⟨change, hchange, hname, hkind, hbreaking.trans hnullable⟩

end Accounts

end ColumnDiff

/-! ## A rename of a column that stays -/

namespace Sample

def bigint (name : String) : ColumnInfo where
  name := name
  dataType := "bigint"
  nullable := true

def bigints (names : List String) (h : names.Nodup) : ColumnTable where
  rows := names.map bigint
  nodup_keys := by
    have hnames : (names.map bigint).map ColumnInfo.name = names := by
      rw [List.map_map]
      exact List.map_id names
    rwa [hnames]

def copyOfId : RenameTable where
  rows := [("copy", "id")]
  nodup_keys := by simp

end Sample

/-- A copy of a column that stays is declared as its rename, and the diff has no entry. -/
theorem compareColumnLists_hides_copy :
    ColumnDiff.compareColumnLists (Sample.bigints ["id", "copy"] (by decide))
        (Sample.bigints ["id"] (by decide)) Sample.copyOfId = [] ∧
      ¬ ColumnDiff.AccountsForColumns (Sample.bigints ["id", "copy"] (by decide))
        (Sample.bigints ["id"] (by decide)) Sample.copyOfId := by
  have hnone : ColumnDiff.compareColumnLists (Sample.bigints ["id", "copy"] (by decide))
      (Sample.bigints ["id"] (by decide)) Sample.copyOfId = [] := by
    decide +kernel
  refine ⟨hnone, ?_⟩
  intro h
  have hcopy := h.once "copy" (by decide +kernel) (by decide +kernel)
  rw [hnone] at hcopy
  cases hcopy

end PhloTransform.Engine
