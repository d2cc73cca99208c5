import PhloTransform.Sql.Directives

/-!
# Directives that are written

A directive is written as a line comment with its name and its value.  Columns and tags are
written with commas between them.

Main results:

- Theorem `parseLine_line`: a directive with a plain value is read back.
- Theorem `HeaderDirective.line_eq_note`: what reading it changes.
-/

namespace PhloTransform.Sql

open Core (IncrementalStrategy Materialization Tight isWhitespace sortColumns trim trim_append
  trim_eq_self_iff)
open Library (textLines textLines_single)

variable {column : String} {strategy : IncrementalStrategy}
variable {values : List String}

/-! ## Directives that are written -/

/-- A directive of a header. -/
inductive HeaderDirective where
  | id (name : String)
  | materialized (materialization : Materialization)
  | incremental (strategy : IncrementalStrategy)
  | key (columns : List String)
  | tags (values : List String)
  | owner (name : String)
  | notNull (column : String)
deriving Repr, DecidableEq

def assigned (name : String) (columns : List Char) : List Char :=
  name.toList ++ '=' :: columns

/-- The value of `@incremental`; an overlap is not written. -/
def strategyText : IncrementalStrategy → List Char
  | .append => "append".toList
  | .key columns => assigned "key" (joined columns)
  | .partition columns => assigned "partition" (joined columns)
  | .timeWindow column _ => assigned "window" column.toList

namespace HeaderDirective

/-- The name behind the `@`. -/
def name : HeaderDirective → String
  | id _ => "id"
  | materialized materialization => materialization.asStr
  | incremental _ => "incremental"
  | key _ => "key"
  | tags _ => "tags"
  | owner _ => "owner"
  | notNull _ => "not-null"

/-- The text of the value, if there is one. -/
def value : HeaderDirective → List Char
  | id name => name.toList
  | materialized _ => []
  | incremental strategy => strategyText strategy
  | key columns => joined columns
  | tags values => joined values
  | owner name => name.toList
  | notNull column => column.toList

def rest (directive : HeaderDirective) : List Char :=
  match directive with
  | materialized _ => []
  | _ => ' ' :: directive.value

def line (directive : HeaderDirective) : List Char :=
  '-' :: '-' :: ' ' :: '@' :: (directive.name.toList ++ directive.rest)

/-- The values of a directive are plain. -/
def Plain : HeaderDirective → Prop
  | id name => IsValue name
  | materialized materialization => materialization ≠ .incremental
  | incremental strategy => IsPlainStrategy strategy
  | key columns => columns ≠ [] ∧ ∀ column ∈ columns, IsColumn column
  | tags values => values ≠ [] ∧ ∀ tag ∈ values, IsTag tag
  | owner name => IsValue name
  | notNull column => IsColumn column

def note (d : Directives) : HeaderDirective → Directives
  | id name => { d with pinnedId := some name }
  | materialized materialization => { d with materialization := some materialization }
  | incremental strategy =>
    { d with
      materialization := some .incremental
      incremental := some strategy
      keys :=
        match strategy with
        | .key columns => sortColumns (d.keys ++ columns)
        | _ => d.keys }
  | key columns => { d with keys := d.keys ++ columns }
  | tags values => { d with tags := d.tags ++ values }
  | owner name => { d with owner := some name }
  | notNull column => { d with notNull := d.notNull ++ [column] }

/-- What a directive says has not been said before. -/
def Free (d : Directives) : HeaderDirective → Prop
  | id _ => d.pinnedId = none
  | materialized _ | incremental _ => d.materialization = none
  | key _ | tags _ | owner _ | notNull _ => True

end HeaderDirective

/-! ## Plain values -/

theorem IsColumn.tight (h : IsColumn column) : Tight column.toList where
  head c hc := (h.2 c (List.mem_of_mem_head? hc)).2
  last c hc := (h.2 c (List.mem_of_mem_getLast? hc)).2

theorem IsColumn.notMem_newline (h : IsColumn column) : '\n' ∉ column.toList :=
  fun hc => absurd (h.2 '\n' hc).2 (by decide)

theorem joined_single (value : String) : joined [value] = value.toList := by
  simp [joined, List.intercalate]

theorem splitColumns_single (h : IsColumn column) : splitColumns column.toList = [column] := by
  rw [← joined_single, splitColumns_joined (by simpa using h)]

theorem joined_cons_cons (first second : String) (values : List String) :
    joined (first :: second :: values) = first.toList ++ ',' :: joined (second :: values) := by
  simp [joined, List.intercalate]

theorem tight_joined (h : ∀ value ∈ values, value.toList ≠ [] ∧ Tight value.toList) :
    Tight (joined values) := by
  induction values with
  | nil => exact ⟨by simp [joined, List.intercalate], by simp [joined, List.intercalate]⟩
  | cons first values ih =>
    rw [List.forall_mem_cons] at h
    cases values with
    | nil => simpa [joined, List.intercalate] using h.1.2
    | cons second values =>
      rw [joined_cons_cons]
      exact h.1.2.append_cons h.1.1 (by decide) (ih h.2)

theorem notMem_joined {c : Char} (hc : c ≠ ',') (h : ∀ value ∈ values, c ∉ value.toList) :
    c ∉ joined values := by
  induction values with
  | nil => simp [joined, List.intercalate]
  | cons first values ih =>
    rw [List.forall_mem_cons] at h
    cases values with
    | nil => simpa [joined, List.intercalate] using h.1
    | cons second values =>
      rw [joined_cons_cons, List.mem_append, List.mem_cons]
      rintro (hmem | heq | hmem)
      · exact h.1 hmem
      · exact hc heq
      · exact ih h.2 hmem

theorem tight_of_all {text : List Char} (h : text.all (fun c => !isWhitespace c) = true) :
    Tight text := by
  simp only [List.all_eq_true, Bool.not_eq_true'] at h
  exact ⟨fun c hc => h c (List.mem_of_mem_head? hc), fun c hc => h c (List.mem_of_mem_getLast? hc)⟩

theorem tight_strategyText (h : IsPlainStrategy strategy) : Tight (strategyText strategy) := by
  have hcolumns : ∀ {columns : List String}, (∀ column ∈ columns, IsColumn column) →
      Tight (joined columns) :=
    fun hcolumns => tight_joined fun column hmem =>
      ⟨(hcolumns column hmem).1, (hcolumns column hmem).tight⟩
  cases strategy with
  | append => exact tight_of_all (by decide)
  | key columns =>
    exact Tight.append_cons (tight_of_all (by decide)) (by decide) (by decide) (hcolumns h.2)
  | partition columns =>
    exact Tight.append_cons (tight_of_all (by decide)) (by decide) (by decide) (hcolumns h.2)
  | timeWindow column overlap =>
    exact Tight.append_cons (tight_of_all (by decide)) (by decide) (by decide) h.1.tight

theorem notMem_strategyText (h : IsPlainStrategy strategy) : '\n' ∉ strategyText strategy := by
  have hcolumns : ∀ {columns : List String}, (∀ column ∈ columns, IsColumn column) →
      '\n' ∉ joined columns :=
    fun hcolumns => notMem_joined (by decide) fun column hmem =>
      (hcolumns column hmem).notMem_newline
  have hvalue : ∀ {name : String} {value : List Char}, '\n' ∉ name.toList → '\n' ∉ value →
      '\n' ∉ assigned name value := by
    intro name value hname hvalue
    rw [assigned, List.mem_append, List.mem_cons, not_or, not_or]
    exact ⟨hname, by decide, hvalue⟩
  cases strategy with
  | append => decide
  | key columns => exact hvalue (by decide) (hcolumns h.2)
  | partition columns => exact hvalue (by decide) (hcolumns h.2)
  | timeWindow column overlap => exact hvalue (by decide) h.1.notMem_newline

/-! ## Reading a directive back -/

theorem strategyOf_assigned {name : String} {columns : List String} (hname : '=' ∉ name.toList)
    (hcolumns : ∀ column ∈ columns, IsColumn column) :
    strategyOf (assigned name (joined columns)) =
      columnStrategy (String.ofList (asciiLower (trim name.toList))) columns := by
  have hchars : ∀ c ∈ name.toList, (c != '=') = true := fun c hc => by
    rw [bne_iff_ne]
    exact fun heq => hname (heq ▸ hc)
  have hdrop : (assigned name (joined columns)).dropWhile (· != '=') = '=' :: joined columns := by
    rw [assigned, List.dropWhile_append_of_pos hchars]
    rfl
  have htake : (assigned name (joined columns)).takeWhile (· != '=') = name.toList := by
    rw [assigned, List.takeWhile_append_of_pos hchars]
    exact List.append_nil _
  simp only [strategyOf, hdrop, htake, splitColumns_joined hcolumns]

theorem strategyOf_strategyText (h : IsPlainStrategy strategy) :
    strategyOf (strategyText strategy) = some strategy := by
  cases strategy with
  | append => decide
  | key columns =>
    obtain ⟨first, columns, rfl⟩ := List.exists_cons_of_ne_nil h.1
    have hkey : String.ofList (asciiLower (trim "key".toList)) = "key" := by decide
    rw [strategyText, strategyOf_assigned (by decide) h.2, hkey]
    rfl
  | partition columns =>
    obtain ⟨first, columns, rfl⟩ := List.exists_cons_of_ne_nil h.1
    have hkey : String.ofList (asciiLower (trim "partition".toList)) = "partition" := by decide
    rw [strategyText, strategyOf_assigned (by decide) h.2, hkey]
    rfl
  | timeWindow column overlap =>
    obtain ⟨hcolumn, rfl⟩ := h
    have hkey : String.ofList (asciiLower (trim "window".toList)) = "window" := by decide
    rw [strategyText, ← joined_single, strategyOf_assigned (by decide) (by simpa using hcolumn),
      hkey]
    rfl

namespace HeaderDirective

variable {directive : HeaderDirective}

theorem Plain.tight (h : directive.Plain) : Tight directive.value := by
  cases directive with
  | id name => exact trim_eq_self_iff.1 h.2.1
  | materialized materialization => exact ⟨by simp [value], by simp [value]⟩
  | incremental strategy => exact tight_strategyText h
  | key columns =>
    exact tight_joined fun column hmem => ⟨(h.2 column hmem).1, (h.2 column hmem).tight⟩
  | tags values =>
    exact tight_joined fun tag hmem =>
      ⟨(h.2 tag hmem).1.1, trim_eq_self_iff.1 (h.2 tag hmem).1.2.1⟩
  | owner name => exact trim_eq_self_iff.1 h.2.1
  | notNull column => exact IsColumn.tight h

theorem Plain.notMem_value (h : directive.Plain) : '\n' ∉ directive.value := by
  cases directive with
  | id name => exact h.2.2
  | materialized materialization => exact List.not_mem_nil
  | incremental strategy => exact notMem_strategyText h
  | key columns =>
    exact notMem_joined (by decide) fun column hmem => (h.2 column hmem).notMem_newline
  | tags values => exact notMem_joined (by decide) fun tag hmem => (h.2 tag hmem).1.2.2
  | owner name => exact h.2.2
  | notNull column => exact IsColumn.notMem_newline h

def names : List String :=
  ["id", "view", "table", "incremental", "ephemeral", "key", "tags", "owner", "not-null"]

theorem name_mem (directive : HeaderDirective) : directive.name ∈ names := by
  cases directive with
  | materialized materialization => cases materialization <;> simp [names, name, Materialization.asStr]
  | _ => simp [names, name]

theorem names_all : names.all (fun name => !name.toList.isEmpty && name.toList.all isNameChar) = true := by
  decide

theorem isNameChar_name : ∀ c ∈ directive.name.toList, isNameChar c = true := by
  have hname := List.all_eq_true.1 names_all _ (name_mem directive)
  rw [Bool.and_eq_true] at hname
  exact List.all_eq_true.1 hname.2

theorem name_ne_nil : directive.name.toList ≠ [] := by
  have hname := List.all_eq_true.1 names_all _ (name_mem directive)
  rw [Bool.and_eq_true] at hname
  simpa using hname.1

theorem rest_eq (directive : HeaderDirective) :
    directive.rest = [] ∧ directive.value = [] ∨ directive.rest = ' ' :: directive.value := by
  cases directive with
  | materialized materialization => exact .inl ⟨rfl, rfl⟩
  | _ => exact .inr rfl

theorem Plain.trim_rest (h : directive.Plain) : trim directive.rest = directive.value := by
  rcases directive.rest_eq with ⟨hrest, hvalue⟩ | hrest
  · rw [hrest, hvalue]
    rfl
  · have hblank : Core.Blank [' '] := by simp [Core.Blank, isWhitespace]
    rw [hrest]
    exact (trim_append hblank).trans (trim_eq_self_iff.2 h.tight)

theorem Plain.parseLine_line (h : directive.Plain) :
    parseLine directive.line = some ("@" ++ directive.name, directive.value) := by
  have hname : String.ofList ('@' :: directive.name.toList) = "@" ++ directive.name := by
    rw [← String.toList_inj, String.toList_ofList, String.toList_append]
    rfl
  rw [line, parseLine_comment name_ne_nil isNameChar_name, h.trim_rest, hname]
  rcases directive.rest_eq with ⟨hrest, hvalue⟩ | hrest
  · simp [hrest]
  · rw [hrest]
    simp only [List.head?_cons, Option.mem_def, Option.some_inj, forall_eq']
    decide

theorem Plain.notMem_line (h : directive.Plain) : '\n' ∉ directive.line := by
  have hname : '\n' ∉ directive.name.toList :=
    fun hc => absurd (isNameChar_name '\n' hc) (by decide)
  have hrest : '\n' ∉ directive.rest := by
    rcases directive.rest_eq with ⟨hrest, -⟩ | hrest
    · simp [hrest]
    · rw [hrest, List.mem_cons, not_or]
      exact ⟨by decide, h.notMem_value⟩
  simp [line, hname, hrest]

theorem Plain.getLast?_line (h : directive.Plain) : directive.line.getLast? ≠ some '\r' := by
  have hend : ∀ {text : List Char}, text ≠ [] → text.getLast? ≠ some '\r' → ∀ front : List Char,
      (front ++ text).getLast? ≠ some '\r' := by
    intro text hne hlast front
    rwa [List.getLast?_append_of_ne_nil _ hne]
  have hname : directive.name.toList.getLast? ≠ some '\r' := fun hlast =>
    absurd (isNameChar_name '\r' (List.mem_of_mem_getLast? hlast)) (by decide)
  have hvalue : (' ' :: directive.value).getLast? ≠ some '\r' := by
    rw [List.getLast?_cons, ne_eq, Option.some_inj]
    intro heq
    cases hlast : directive.value.getLast? with
    | none => simp [hlast] at heq
    | some c =>
      have hblank := h.tight.last c hlast
      rw [hlast] at heq
      rw [show c = '\r' from heq] at hblank
      exact absurd hblank (by decide)
  rw [line]
  rcases directive.rest_eq with ⟨hrest, -⟩ | hrest
  · rw [hrest, List.append_nil]
    exact hend name_ne_nil hname ['-', '-', ' ', '@']
  · rw [hrest]
    exact hend (List.cons_ne_nil _ _) hvalue ('-' :: '-' :: ' ' :: '@' :: directive.name.toList)

theorem Plain.line_eq_note (h : directive.Plain) {d : Directives} (hfree : directive.Free d)
    (number : Nat) : d.line (directive.line, number) = directive.note d := by
  have htrim : trim directive.value = directive.value := trim_eq_self_iff.2 h.tight
  rw [Directives.line, h.parseLine_line]
  change d.apply ("@" ++ directive.name) (number + 1) directive.value = _
  cases directive with
  | id name =>
    have happly : d.apply ("@" ++ "id") (number + 1) name.toList =
        d.parseId "@id" (number + 1) name.toList := rfl
    refine happly.trans ?_
    rw [Directives.parseId, h.2.1, if_neg h.1, hfree]
    simp [note]
  | materialized materialization =>
    have hset : d.setMaterialization ("@" ++ materialization.asStr) (number + 1)
        materialization = note d (materialized materialization) := by
      rw [Directives.setMaterialization, hfree]
      rfl
    cases materialization with
    | incremental => exact absurd rfl h
    | view => exact hset
    | table => exact hset
    | ephemeral => exact hset
  | incremental strategy =>
    have hne : strategyText strategy ≠ [] := by
      cases strategy <;> simp [strategyText, assigned]
    have htext : trim (strategyText strategy) = strategyText strategy := htrim
    have happly : d.apply ("@" ++ "incremental") (number + 1) (strategyText strategy) =
        d.parseIncremental "@incremental" (number + 1) (strategyText strategy) := rfl
    refine happly.trans ?_
    rw [Directives.parseIncremental, htext, if_neg hne, strategyOf_strategyText h]
    cases strategy <;> simp [Directives.setMaterialization, note, Free] at hfree ⊢ <;> simp [hfree]
  | key columns =>
    have happly : d.apply ("@" ++ "key") (number + 1) (joined columns) =
        if splitColumns (joined columns) = [] then d.missingValue "@key" (number + 1)
        else { d with keys := d.keys ++ splitColumns (joined columns) } := rfl
    refine happly.trans ?_
    rw [splitColumns_joined h.2, if_neg h.1, note]
  | tags values =>
    have happly : d.apply ("@" ++ "tags") (number + 1) (joined values) =
        if splitTags (joined values) = [] then d.missingValue "@tags" (number + 1)
        else { d with tags := d.tags ++ splitTags (joined values) } := rfl
    refine happly.trans ?_
    rw [splitTags_joined h.2, if_neg h.1, note]
  | owner name =>
    have happly : d.apply ("@" ++ "owner") (number + 1) name.toList =
        if trim name.toList = [] then d.missingValue "@owner" (number + 1)
        else { d with owner := some (String.ofList (trim name.toList)) } := rfl
    refine happly.trans ?_
    rw [h.2.1, if_neg h.1, String.ofList_toList, note]
  | notNull column =>
    have hread : splitColumns column.toList = [column] := splitColumns_single h
    have happly : d.apply ("@" ++ "not-null") (number + 1) column.toList =
        if splitColumns column.toList = [] then d.missingValue "@not-null" (number + 1)
        else { d with notNull := d.notNull ++ splitColumns column.toList } := rfl
    refine happly.trans ?_
    rw [hread, if_neg (List.cons_ne_nil _ _), note]

end HeaderDirective

end PhloTransform.Sql
