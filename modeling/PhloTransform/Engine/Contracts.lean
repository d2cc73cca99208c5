import PhloTransform.Core.Assertions
import PhloTransform.Core.TypeText
import PhloTransform.Engine.Evaluation
import PhloTransform.Library.Renames

/-!
# Contract diffs

The contract that a model declares is compared with the previous one, column by column; a
declared rename lets a column be compared with the one it replaces.  Each change is safe,
needs a review, or breaks consumers.

Main results:

- Theorem `exists_breaking_iff`: the changes that are reported as breaking.
- Theorem `guaranteed_iff_of_not_breaks`: what an unbroken contract can still lose.
-/

namespace PhloTransform.Engine

open Core (ColumnContract DataType ModelContract)
open Library (ambiguousNames claimants isAmbiguous resolvedRenames)

/-! ## Contracts -/

/-- A contract as the configuration declares it: columns and renames come from maps. -/
structure DeclaredContract extends ModelContract where
  columns_nodup : (columns.map ColumnContract.name).Nodup
  renames_nodup : (renames.map Prod.fst).Nodup

namespace DeclaredContract

def names (contract : DeclaredContract) : List String :=
  contract.columns.map ColumnContract.name

def column (contract : DeclaredContract) (name : String) : Option ColumnContract :=
  contract.columns.find? fun column => decide (column.name = name)

end DeclaredContract

/-! ## The diff -/

/-- `describe_column`. -/
def describeColumn (column : ColumnContract) : String :=
  let describeNullable : Bool → String := fun nullable =>
    if nullable then "nullable" else "non-null"
  match column.dataType, column.nullable with
  | some dataType, some nullable => dataType.display ++ ", " ++ describeNullable nullable
  | some dataType, none => dataType.display
  | none, some nullable => describeNullable nullable
  | none, none => "untyped"

/-- A change between two declared types. -/
def typeChange (name : String) : Option DataType → Option DataType → List ContractChange
  | some previous, some desired =>
    if previous ≠ desired then
      -- Numeric widening is reviewable, anything else breaks consumers.
      let widening := previous.isKnown && desired.isKnown && previous.isNumeric &&
        desired.isNumeric && decide (DataType.widen desired previous = desired)
      [{ column := name
         kind := "type_changed"
         detail := "contract type `" ++ previous.display ++ "` → `" ++ desired.display ++ "`"
         safety := if widening then .review else .breaking }]
    else []
  | _, _ => []

/-- A change between two declared nullabilities. -/
def nullabilityChange (name : String) : Option Bool → Option Bool → List ContractChange
  | some wasNullable, some isNullable =>
    if wasNullable ≠ isNullable then
      [{ column := name
         kind := "nullability_changed"
         detail := if isNullable then "contract relaxed to nullable"
           else "contract tightened to non-null"
         safety := if isNullable then .breaking else .review }]
    else []
  | _, _ => []

/-- `compare_column_contracts`. -/
def compareColumnContracts (name : String) (previous desired : ColumnContract) :
    List ContractChange :=
  typeChange name previous.dataType desired.dataType ++
    nullabilityChange name previous.nullable desired.nullable

section Diff

variable (previous desired : DeclaredContract)

/-- The declared renames that turn a column of the previous contract into a new one. -/
def contractRenames : List (String × String) :=
  resolvedRenames previous.names desired.names desired.renames

def enforcementChanges : List ContractChange :=
  if previous.enforced ≠ desired.enforced then
    [{ column := ""
       kind := "enforcement_changed"
       detail := if desired.enforced then "contract now enforced — violations become errors"
         else "contract no longer enforced — violations downgrade to warnings"
       safety := if desired.enforced then .review else .breaking }]
  else []

def ambiguousChanges : List ContractChange :=
  ((ambiguousNames desired.renames).filter fun old => decide (old ∈ previous.names)).map
    fun old =>
      { column := old
        kind := "rename_ambiguous"
        detail := "declared renames for `" ++ old ++ "` are ambiguous: " ++
          ", ".intercalate (claimants desired.renames old)
        safety := .review }

/-- A rename that the previous contract declared is no change. -/
def renamedChanges : List ContractChange :=
  ((contractRenames previous desired).filter fun rename =>
    decide (previous.renames.lookup rename.1 ≠ some rename.2)).map fun rename =>
      { column := rename.1
        kind := "renamed"
        detail := "renamed from `" ++ rename.2 ++ "`"
        safety := .breaking }

def removedChanges : List ContractChange :=
  (previous.columns.filter fun column => decide (column.name ∉ desired.names) &&
    !(contractRenames previous desired).any fun rename => decide (rename.2 = column.name)).map
      fun column =>
        { column := column.name
          kind := "removed"
          detail := "contract column removed"
          safety := .breaking }

/-- The column that a desired one is compared with: the one it was renamed from, or the one
of its name. -/
def previousColumn (name : String) : Option ColumnContract :=
  (((contractRenames previous desired).lookup name).bind previous.column).or
    (previous.column name)

def columnChanges (column : ColumnContract) : List ContractChange :=
  match previousColumn previous desired column.name with
  | none =>
    [{ column := column.name
       kind := "added"
       detail := "contract column added (" ++ describeColumn column ++ ")"
       safety := .safe }]
  | some old => compareColumnContracts column.name old column

end Diff

/-- `contract_diff`. -/
def contractDiff : Option DeclaredContract → Option DeclaredContract → List ContractChange
  | none, none => []
  | none, some desired =>
    [{ column := ""
       kind := "contract_added"
       detail := "contract declared (" ++ toString desired.columns.length ++ " columns)"
       safety := .safe }]
  | some previous, none =>
    [{ column := ""
       kind := "contract_removed"
       detail := "contract dropped (" ++ toString previous.columns.length ++ " columns)"
       safety := .breaking }]
  | some previous, some desired =>
    enforcementChanges previous desired ++ ambiguousChanges previous desired ++
      renamedChanges previous desired ++ removedChanges previous desired ++
      desired.columns.flatMap (columnChanges previous desired)

/-! ## Columns by name -/

namespace DeclaredContract

variable {contract : DeclaredContract} {column : ColumnContract} {name : String}

theorem column_eq_some_iff :
    contract.column name = some column ↔ column ∈ contract.columns ∧ column.name = name := by
  constructor
  · intro h
    have hname := List.find?_some h
    exact ⟨List.mem_of_find?_eq_some h, of_decide_eq_true hname⟩
  · rintro ⟨hmem, rfl⟩
    cases hfind : contract.column column.name with
    | none =>
      rw [DeclaredContract.column, List.find?_eq_none] at hfind
      exact absurd (decide_eq_true rfl) (hfind column hmem)
    | some other =>
      have hother := List.mem_of_find?_eq_some hfind
      have hname := List.find?_some hfind
      rw [List.inj_on_of_nodup_map contract.columns_nodup hother hmem (of_decide_eq_true hname)]

theorem eq_of_name_eq {other : ColumnContract} (h : column ∈ contract.columns)
    (h' : other ∈ contract.columns) (hname : column.name = other.name) : column = other :=
  List.inj_on_of_nodup_map contract.columns_nodup h h' hname

theorem mem_names (h : column ∈ contract.columns) : column.name ∈ contract.names :=
  List.mem_map_of_mem h

end DeclaredContract

section Sound

variable {previous desired : DeclaredContract}

theorem previousColumn_of_mem {column : ColumnContract} (h : column ∈ previous.columns) :
    previousColumn previous desired column.name = some column := by
  rw [previousColumn, contractRenames,
    Library.lookup_resolvedRenames_eq_none (DeclaredContract.mem_names h), Option.bind_none,
    Option.none_or]
  exact DeclaredContract.column_eq_some_iff.2 ⟨h, rfl⟩

/-! ## Breaking changes -/

/-- What breaks consumers: enforcement is dropped, a column is renamed or removed, a type is
neither kept nor widened, or a column that was not null may be. -/
inductive Breaks (previous desired : DeclaredContract) : Prop
  | unenforced (h : previous.enforced = true) (h' : desired.enforced = false)
  | renamed {new old : String} (h : (new, old) ∈ contractRenames previous desired)
      (h' : previous.renames.lookup new ≠ some old)
  | removed {column : ColumnContract} (h : column ∈ previous.columns)
      (h' : column.name ∉ desired.names)
      (h'' : ∀ new, (new, column.name) ∉ contractRenames previous desired)
  | retyped {column old : ColumnContract} {type oldType : DataType} (h : column ∈ desired.columns)
      (hold : previousColumn previous desired column.name = some old)
      (holdType : old.dataType = some oldType) (htype : column.dataType = some type)
      (hnarrow : type.evolves oldType = false)
  | relaxed {column old : ColumnContract} (h : column ∈ desired.columns)
      (hold : previousColumn previous desired column.name = some old)
      (hnotNull : old.nullable = some false) (hnullable : column.nullable = some true)

theorem breaking_mem_enforcementChanges_iff :
    (∃ change ∈ enforcementChanges previous desired, change.safety = .breaking) ↔
      previous.enforced = true ∧ desired.enforced = false := by
  unfold enforcementChanges
  cases previous.enforced <;> cases desired.enforced <;> simp

theorem safety_of_mem_ambiguousChanges {change : ContractChange}
    (h : change ∈ ambiguousChanges previous desired) : change.safety = .review := by
  obtain ⟨old, -, rfl⟩ := List.mem_map.1 h
  rfl

theorem breaking_mem_renamedChanges_iff :
    (∃ change ∈ renamedChanges previous desired, change.safety = .breaking) ↔
      ∃ new old, (new, old) ∈ contractRenames previous desired ∧
        previous.renames.lookup new ≠ some old := by
  constructor
  · rintro ⟨change, hchange, -⟩
    obtain ⟨⟨new, old⟩, hmem, rfl⟩ := List.mem_map.1 hchange
    rw [List.mem_filter, decide_eq_true_eq] at hmem
    exact ⟨new, old, hmem.1, hmem.2⟩
  · rintro ⟨new, old, hmem, hnew⟩
    refine ⟨_, List.mem_map_of_mem (List.mem_filter.2 ⟨hmem, ?_⟩), rfl⟩
    rw [decide_eq_true_eq]
    exact hnew

theorem breaking_mem_removedChanges_iff :
    (∃ change ∈ removedChanges previous desired, change.safety = .breaking) ↔
      ∃ column ∈ previous.columns, column.name ∉ desired.names ∧
        ∀ new, (new, column.name) ∉ contractRenames previous desired := by
  have hgone : ∀ column : ColumnContract,
      (!(contractRenames previous desired).any fun rename =>
        decide (rename.2 = column.name)) = true ↔
          ∀ new, (new, column.name) ∉ contractRenames previous desired := by
    intro column
    rw [Bool.not_eq_true', List.any_eq_false]
    constructor
    · intro h new hmem
      exact h _ hmem (decide_eq_true rfl)
    · rintro h ⟨new, old⟩ hmem hsame
      obtain rfl : old = column.name := of_decide_eq_true hsame
      exact h new hmem
  constructor
  · rintro ⟨change, hchange, -⟩
    obtain ⟨column, hmem, rfl⟩ := List.mem_map.1 hchange
    rw [List.mem_filter, Bool.and_eq_true, decide_eq_true_eq, hgone] at hmem
    exact ⟨column, hmem.1, hmem.2⟩
  · rintro ⟨column, hmem, habsent, hkept⟩
    refine ⟨_, List.mem_map_of_mem (List.mem_filter.2 ⟨hmem, ?_⟩), rfl⟩
    rw [Bool.and_eq_true, decide_eq_true_eq, hgone]
    exact ⟨habsent, hkept⟩

theorem breaking_mem_typeChange_iff (name : String) {old new : Option DataType} :
    (∃ change ∈ typeChange name old new, change.safety = .breaking) ↔
      ∃ oldType type, old = some oldType ∧ new = some type ∧ type.evolves oldType = false := by
  match old, new with
  | none, new => simp [typeChange]
  | some oldType, none => simp [typeChange]
  | some oldType, some type =>
    simp only [Option.some.injEq, exists_and_left, exists_eq_left']
    rw [typeChange, DataType.evolves]
    by_cases hsame : oldType = type
    · simp [hsame]
    · rw [if_pos hsame]
      cases hold : oldType.isNumeric with
      | false => simp [Ne.symm hsame]
      | true =>
        cases hnew : type.isNumeric with
        | false => simp [Ne.symm hsame]
        | true =>
          have holdKnown := DataType.isKnown_of_isNumeric hold
          have hnewKnown := DataType.isKnown_of_isNumeric hnew
          by_cases hwide : type.widen oldType = type
          · simp [holdKnown, hnewKnown, hwide]
          · simp [holdKnown, hnewKnown, hwide, Ne.symm hsame]

theorem breaking_mem_nullabilityChange_iff (name : String) {old new : Option Bool} :
    (∃ change ∈ nullabilityChange name old new, change.safety = .breaking) ↔
      old = some false ∧ new = some true := by
  match old, new with
  | none, new => simp [nullabilityChange]
  | some wasNullable, none => simp [nullabilityChange]
  | some wasNullable, some isNullable =>
    cases wasNullable <;> cases isNullable <;> simp [nullabilityChange]

theorem breaking_mem_columnChanges_iff {column : ColumnContract} :
    (∃ change ∈ columnChanges previous desired column, change.safety = .breaking) ↔
      ∃ old, previousColumn previous desired column.name = some old ∧
        ((∃ oldType type, old.dataType = some oldType ∧ column.dataType = some type ∧
            type.evolves oldType = false) ∨
          old.nullable = some false ∧ column.nullable = some true) := by
  unfold columnChanges
  cases previousColumn previous desired column.name with
  | none => simp
  | some old =>
    simp only [Option.some.injEq, exists_eq_left']
    rw [compareColumnContracts, ← breaking_mem_typeChange_iff column.name,
      ← breaking_mem_nullabilityChange_iff column.name]
    simp only [List.mem_append, or_and_right, exists_or]

theorem exists_breaking_iff :
    (∃ change ∈ contractDiff (some previous) (some desired), change.safety = .breaking) ↔
      Breaks previous desired := by
  have hreview : ¬ ∃ change ∈ ambiguousChanges previous desired, change.safety = .breaking := by
    rintro ⟨change, hchange, hsafety⟩
    rw [safety_of_mem_ambiguousChanges hchange] at hsafety
    cases hsafety
  have hcolumns : (∃ change ∈ desired.columns.flatMap (columnChanges previous desired),
      change.safety = .breaking) ↔ ∃ column ∈ desired.columns,
        ∃ change ∈ columnChanges previous desired column, change.safety = .breaking := by
    simp only [List.mem_flatMap]
    constructor
    · rintro ⟨change, ⟨column, hcolumn, hchange⟩, hsafety⟩
      exact ⟨column, hcolumn, change, hchange, hsafety⟩
    · rintro ⟨column, hcolumn, change, hchange, hsafety⟩
      exact ⟨change, ⟨column, hcolumn, hchange⟩, hsafety⟩
  simp only [contractDiff, List.mem_append, or_and_right, exists_or, hreview, or_false, hcolumns,
    breaking_mem_enforcementChanges_iff, breaking_mem_renamedChanges_iff,
    breaking_mem_removedChanges_iff, breaking_mem_columnChanges_iff]
  constructor
  · rintro (((h | ⟨new, old, h, h'⟩) | ⟨column, h, h', h''⟩) | ⟨column, h, old, hold, hchange⟩)
    · exact .unenforced h.1 h.2
    · exact .renamed h h'
    · exact .removed h h' h''
    · rcases hchange with ⟨oldType, type, holdType, htype, hnarrow⟩ | ⟨hnotNull, hnullable⟩
      · exact .retyped h hold holdType htype hnarrow
      · exact .relaxed h hold hnotNull hnullable
  · intro h
    cases h with
    | unenforced h h' => exact .inl (.inl (.inl ⟨h, h'⟩))
    | renamed h h' => exact .inl (.inl (.inr ⟨_, _, h, h'⟩))
    | removed h h' h'' => exact .inl (.inr ⟨_, h, h', h''⟩)
    | retyped h hold holdType htype hnarrow =>
      exact .inr ⟨_, h, _, hold, .inl ⟨_, _, holdType, htype, hnarrow⟩⟩
    | relaxed h hold hnotNull hnullable => exact .inr ⟨_, h, _, hold, .inr ⟨hnotNull, hnullable⟩⟩

/-! ## Guarantees -/

/-- Every guarantee of the previous contract follows from the desired one. -/
structure Guaranteed (previous desired : DeclaredContract) : Prop where
  columns : ∀ column ∈ previous.columns, ∃ kept ∈ desired.columns, kept.name = column.name
  types : ∀ column ∈ previous.columns, ∀ oldType, column.dataType = some oldType →
    ∃ kept ∈ desired.columns, kept.name = column.name ∧
      ∃ type, kept.dataType = some type ∧ type.evolves oldType = true
  notNull : ∀ column ∈ previous.columns, column.nullable = some false →
    ∃ kept ∈ desired.columns, kept.name = column.name ∧ kept.nullable = some false
  enforced : previous.enforced = true → desired.enforced = true

/-- What is lost without a breaking change: a declared type or a non-null guarantee that is no
longer specified, and a column that was renamed as the previous contract already declared. -/
inductive Loosens (previous desired : DeclaredContract) : Prop
  | untyped {column kept : ColumnContract} (h : column ∈ previous.columns)
      (hkept : kept ∈ desired.columns) (hname : kept.name = column.name)
      (htype : column.dataType ≠ none) (hnone : kept.dataType = none)
  | unspecified {column kept : ColumnContract} (h : column ∈ previous.columns)
      (hkept : kept ∈ desired.columns) (hname : kept.name = column.name)
      (hnotNull : column.nullable = some false) (hnone : kept.nullable = none)
  | renamed {column : ColumnContract} {new : String} (h : column ∈ previous.columns)
      (hgone : column.name ∉ desired.names)
      (hrenamed : (new, column.name) ∈ contractRenames previous desired)
      (hdeclared : previous.renames.lookup new = some column.name)

theorem not_loosens_of_guaranteed (h : Guaranteed previous desired) :
    ¬ Loosens previous desired := by
  intro hloose
  cases hloose with
  | untyped hmem hkept hname htype hnone =>
    obtain ⟨oldType, holdType⟩ := Option.ne_none_iff_exists'.1 htype
    obtain ⟨other, hother, hsame, type, hsome, -⟩ := h.types _ hmem oldType holdType
    rw [DeclaredContract.eq_of_name_eq hother hkept (hsame.trans hname.symm), hnone] at hsome
    cases hsome
  | unspecified hmem hkept hname hnotNull hnone =>
    obtain ⟨other, hother, hsame, hsome⟩ := h.notNull _ hmem hnotNull
    rw [DeclaredContract.eq_of_name_eq hother hkept (hsame.trans hname.symm), hnone] at hsome
    cases hsome
  | renamed hmem hgone hrenamed hdeclared =>
    obtain ⟨kept, hkept, hname⟩ := h.columns _ hmem
    exact hgone (hname ▸ DeclaredContract.mem_names hkept)

/-- An unbroken contract keeps every guarantee unless it loosens one. -/
theorem guaranteed_iff_of_not_breaks (h : ¬ Breaks previous desired) :
    Guaranteed previous desired ↔ ¬ Loosens previous desired := by
  refine ⟨not_loosens_of_guaranteed, ?_⟩
  intro hloose
  have hkept : ∀ column ∈ previous.columns, ∃ kept ∈ desired.columns,
      kept.name = column.name := by
    intro column hcolumn
    by_cases hname : column.name ∈ desired.names
    · obtain ⟨kept, hkept, hsame⟩ := List.mem_map.1 hname
      exact ⟨kept, hkept, hsame⟩
    · by_cases hrenamed : ∃ new, (new, column.name) ∈ contractRenames previous desired
      · obtain ⟨new, hnew⟩ := hrenamed
        by_cases hdeclared : previous.renames.lookup new = some column.name
        · exact absurd (.renamed hcolumn hname hnew hdeclared) hloose
        · exact absurd (.renamed hnew hdeclared) h
      · rw [not_exists] at hrenamed
        exact absurd (.removed hcolumn hname hrenamed) h
  have hold : ∀ column ∈ previous.columns, ∀ kept : ColumnContract, kept.name = column.name →
      previousColumn previous desired kept.name = some column := by
    intro column hcolumn kept hname
    rw [hname]
    exact previousColumn_of_mem hcolumn
  constructor
  · exact hkept
  · intro column hcolumn oldType holdType
    obtain ⟨kept, hmem, hname⟩ := hkept column hcolumn
    refine ⟨kept, hmem, hname, ?_⟩
    cases htype : kept.dataType with
    | none =>
      have hsome : column.dataType ≠ none := by simp [holdType]
      exact absurd (.untyped hcolumn hmem hname hsome htype) hloose
    | some type =>
      refine ⟨type, rfl, ?_⟩
      by_contra hnarrow
      rw [Bool.not_eq_true] at hnarrow
      exact h (.retyped hmem (hold column hcolumn kept hname) holdType htype hnarrow)
  · intro column hcolumn hnotNull
    obtain ⟨kept, hmem, hname⟩ := hkept column hcolumn
    refine ⟨kept, hmem, hname, ?_⟩
    cases hnullable : kept.nullable with
    | none => exact absurd (.unspecified hcolumn hmem hname hnotNull hnullable) hloose
    | some nullable =>
      cases nullable with
      | false => rfl
      | true =>
        exact absurd (.relaxed hmem (hold column hcolumn kept hname) hnotNull hnullable) h
  · intro henforced
    cases hdesired : desired.enforced with
    | true => rfl
    | false => exact absurd (.unenforced henforced hdesired) h

end Sound

/-! ## A contract and itself -/

theorem contractRenames_self (contract : DeclaredContract) :
    contractRenames contract contract = [] := by
  rw [List.eq_nil_iff_forall_not_mem]
  rintro ⟨new, old⟩ hmem
  have hresolved := Library.mem_resolvedRenames_iff.1 hmem
  exact hresolved.2.2.2.1 hresolved.2.2.1

/-- Of a contract and itself, only the ambiguous renames are reported. -/
theorem contractDiff_self (contract : DeclaredContract) :
    contractDiff (some contract) (some contract) = ambiguousChanges contract contract := by
  have henforcement : enforcementChanges contract contract = [] := by simp [enforcementChanges]
  have hrenamed : renamedChanges contract contract = [] := by
    rw [renamedChanges, contractRenames_self]
    rfl
  have hremoved : removedChanges contract contract = [] := by
    rw [removedChanges, List.map_eq_nil_iff, List.filter_eq_nil_iff]
    intro column hcolumn
    simp [DeclaredContract.mem_names hcolumn]
  have hcolumns : contract.columns.flatMap (columnChanges contract contract) = [] := by
    rw [List.flatMap_eq_nil_iff]
    intro column hcolumn
    have htype : ∀ type, typeChange column.name type type = [] := by
      intro type
      cases type <;> simp [typeChange]
    have hnullable : ∀ nullable, nullabilityChange column.name nullable nullable = [] := by
      intro nullable
      cases nullable <;> simp [nullabilityChange]
    rw [columnChanges, previousColumn_of_mem hcolumn]
    simp only [compareColumnContracts, htype, hnullable, List.append_nil]
  rw [contractDiff, henforcement, hrenamed, hremoved, hcolumns]
  simp

/-- Without a breaking entry, every guarantee of the previous contract follows. -/
def DiffSound (previous desired : DeclaredContract) : Prop :=
  (∀ change ∈ contractDiff (some previous) (some desired), change.safety ≠ .breaking) →
    Guaranteed previous desired

/-- A diff can be trusted when it breaks or nothing is loosened; and a contract has no diff with
itself when no two of its renames claim one of its columns. -/
theorem contractDiff_sound_iff (previous desired contract : DeclaredContract) :
    (DiffSound previous desired ↔ Breaks previous desired ∨ ¬ Loosens previous desired) ∧
      (contractDiff (some contract) (some contract) = [] ↔
        ∀ column ∈ contract.columns, isAmbiguous contract.renames column.name = false) := by
  constructor
  · have hnone : (∀ change ∈ contractDiff (some previous) (some desired),
        change.safety ≠ .breaking) ↔ ¬ Breaks previous desired := by
      rw [← exists_breaking_iff]
      push Not
      rfl
    rw [DiffSound, hnone]
    by_cases hbreaks : Breaks previous desired
    · simp [hbreaks]
    · simp [hbreaks, guaranteed_iff_of_not_breaks hbreaks]
  · rw [contractDiff_self, ambiguousChanges, List.map_eq_nil_iff, List.filter_eq_nil_iff]
    simp only [Library.mem_ambiguousNames_iff, decide_eq_true_eq, DeclaredContract.names,
      List.mem_map, not_exists, not_and]
    constructor
    · intro h column hcolumn
      rw [← Bool.not_eq_true]
      intro hambiguous
      exact h column.name hambiguous column hcolumn rfl
    · rintro h old hambiguous column hcolumn rfl
      rw [h column hcolumn] at hambiguous
      cases hambiguous

/-! ## A type that is no longer declared -/

namespace Sample

def oneColumn (column : ColumnContract) : DeclaredContract where
  enforced := true
  columns := [column]
  renames := []
  columns_nodup := by simp
  renames_nodup := by simp

def claimedTwice : DeclaredContract where
  enforced := true
  columns := [{ name := "id", dataType := none, nullable := none }]
  renames := [("a", "id"), ("b", "id")]
  columns_nodup := by simp
  renames_nodup := by simp

end Sample

/-- The declared type and the non-null guarantee are dropped, and nothing is reported; two
renames of one column are reported of an unchanged contract. -/
theorem contractDiff_not_sound :
    ¬ DiffSound (Sample.oneColumn ⟨"id", some .bigInt, some false⟩)
        (Sample.oneColumn ⟨"id", none, none⟩) ∧
      contractDiff (some Sample.claimedTwice) (some Sample.claimedTwice) ≠ [] := by
  constructor
  · intro hsound
    have hnone : contractDiff (some (Sample.oneColumn ⟨"id", some .bigInt, some false⟩))
        (some (Sample.oneColumn ⟨"id", none, none⟩)) = [] := by
      decide +kernel
    rw [DiffSound, hnone] at hsound
    have hkept := hsound (by simp)
    obtain ⟨kept, hmem, -, htype⟩ := hkept.types _ (List.mem_singleton_self _) _ rfl
    obtain rfl := List.mem_singleton.1 hmem
    obtain ⟨type, hsome, -⟩ := htype
    cases hsome
  · decide +kernel

end PhloTransform.Engine
