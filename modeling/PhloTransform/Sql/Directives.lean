import PhloTransform.Core.Assertions
import PhloTransform.Core.Trimming
import PhloTransform.Library.Fields
import PhloTransform.Library.TextLines

/-!
# Header directives

Directives are line comments of the form `-- @name value`.  They are read from every line of the
text of a model, whatever the line is part of.

Main results:

- Theorem `splitColumns_joined`: plain columns are read back.
- Theorem `parseLine_comment`: a comment that starts with a name is a directive.
-/

namespace PhloTransform.Sql

open Core (IncrementalStrategy Materialization isWhitespace mem_of_mem_trim sortColumns trim trimStart
  trimStart_cons trim_trim)
open Library (mem_of_mem_splitOnP notMem_of_mem_textLines not_of_mem_splitOnP splitOnP_intercalate
  textLines)

variable {value : List Char}
variable {columns values : List String} {strategy : IncrementalStrategy}

/-! ## Directives -/

inductive DirectiveIssueKind where
  /-- A known directive was present but lacked a required value. -/
  | missingValue
  | invalidValue
  | duplicateId
  | conflictingMaterialization
  | unknownDirective
deriving Repr, DecidableEq

/-- A problem found while parsing a directive. -/
structure DirectiveIssue where
  kind : DirectiveIssueKind
  name : String
  line : Nat
deriving Repr, DecidableEq

/-- Directives extracted from a model's SQL text. -/
structure Directives where
  pinnedId : Option String
  materialization : Option Materialization
  tags : List String
  owner : Option String
  keys : List String
  notNull : List String
  incremental : Option IncrementalStrategy
  issues : List DirectiveIssue
deriving Repr, DecidableEq

def Directives.empty : Directives where
  pinnedId := none
  materialization := none
  tags := []
  owner := none
  keys := []
  notNull := []
  incremental := none
  issues := []

/-! ## Values -/

/-- `split_columns`: names between commas and whitespace. -/
def splitColumns (value : List Char) : List String :=
  ((value.splitOnP fun c => c == ',' || isWhitespace c).filter fun part => !part.isEmpty).map
    String.ofList

def splitTags (value : List Char) : List String :=
  (((value.splitOnP fun c => c == ',').map trim).filter fun part => !part.isEmpty).map String.ofList

/-- `to_ascii_lowercase`. -/
def asciiLower (value : List Char) : List Char :=
  value.map Char.toLower

/-- `Materialization::parse`. -/
def parseMaterialization (value : List Char) : Option Materialization :=
  match String.ofList (asciiLower (trim value)) with
  | "view" => some .view
  | "table" => some .table
  | "incremental" => some .incremental
  | "ephemeral" => some .ephemeral
  | _ => none

/-- The strategy of a key and its columns. -/
def columnStrategy (key : String) (columns : List String) : Option IncrementalStrategy :=
  match key, columns with
  | "key", _ :: _ => some (.key columns)
  | "partition", _ :: _ => some (.partition columns)
  | "window", column :: _ => some (.timeWindow column none)
  | _, _ => none

/-- The strategy that an `@incremental` value names. -/
def strategyOf (value : List Char) : Option IncrementalStrategy :=
  match value.dropWhile (· != '=') with
  | _ :: columns =>
    columnStrategy (String.ofList (asciiLower (trim (value.takeWhile (· != '=')))))
      (splitColumns columns)
  | [] =>
    match ((value.splitOnP isWhitespace).filter fun part => !part.isEmpty).head? with
    | some word => if asciiLower word = "append".toList then some .append else none
    | none => none

namespace Directives

variable (d : Directives) (name : String) (line : Nat)

def issue (kind : DirectiveIssueKind) : Directives :=
  { d with issues := d.issues ++ [⟨kind, name, line⟩] }

def missingValue : Directives :=
  d.issue name line .missingValue

def setMaterialization (materialization : Materialization) : Directives :=
  match d.materialization with
  | some existing =>
    if existing ≠ materialization then d.issue name line .conflictingMaterialization else d
  | none => { d with materialization := some materialization }

def parseId (value : List Char) : Directives :=
  if trim value = [] then d.missingValue name line
  else if d.pinnedId.isSome then d.issue name line .duplicateId
  -- the first declaration wins, keeping identity stable
  else { d with pinnedId := some (String.ofList (trim value)) }

def parseIncremental (value : List Char) : Directives :=
  if trim value = [] then d.missingValue name line
  else
    match strategyOf (trim value) with
    | some strategy =>
      let keyed :=
        match strategy with
        -- a key declaration also implies identity semantics
        | .key columns => { d with keys := sortColumns (d.keys ++ columns) }
        | _ => d
      ({ keyed with incremental := some strategy }).setMaterialization name line .incremental
    | none => d.issue name line .invalidValue

def apply (value : List Char) : Directives :=
  match name with
  | "@id" => d.parseId name line value
  | "@view" => d.setMaterialization name line .view
  | "@table" => d.setMaterialization name line .table
  | "@ephemeral" => d.setMaterialization name line .ephemeral
  | "@materialized" =>
    if trim value = [] then d.missingValue name line
    else
      match parseMaterialization value with
      | some materialization => d.setMaterialization name line materialization
      | none => d.issue name line .invalidValue
  | "@tags" =>
    if splitTags value = [] then d.missingValue name line
    else { d with tags := d.tags ++ splitTags value }
  | "@owner" =>
    if trim value = [] then d.missingValue name line
    else { d with owner := some (String.ofList (trim value)) }
  | "@key" =>
    if splitColumns value = [] then d.missingValue name line
    else { d with keys := d.keys ++ splitColumns value }
  | "@not-null" =>
    if splitColumns value = [] then d.missingValue name line
    else { d with notNull := d.notNull ++ splitColumns value }
  | "@incremental" => d.parseIncremental name line value
  | _ => d.issue name line .unknownDirective

/-- The lists in order, without repetitions. -/
def sorted : Directives :=
  { d with tags := sortColumns d.tags, keys := sortColumns d.keys
           notNull := sortColumns d.notNull }

end Directives

/-! ## Lines -/

def isNameChar (c : Char) : Bool :=
  c.isAlphanum || c == '-' || c == '_'

/-- `parse_line`: the name and the value of a directive comment. -/
def parseLine (line : List Char) : Option (String × List Char) :=
  match trimStart line with
  | '-' :: '-' :: comment =>
    match trimStart comment with
    | '@' :: body =>
      if body.takeWhile isNameChar = [] then none
      else some (String.ofList ('@' :: body.takeWhile isNameChar),
        trim (body.dropWhile isNameChar))
    | _ => none
  | _ => none

/-- The directive of a line, if it is one. -/
def Directives.line (d : Directives) (line : List Char × Nat) : Directives :=
  match parseLine line.1 with
  | some (name, value) => d.apply name (line.2 + 1) value
  | none => d

/-- `parse_directives`. -/
def parseDirectives (sql : List Char) : Directives :=
  ((textLines sql).zipIdx.foldl Directives.line .empty).sorted

/-! ## Reading values back -/

def IsColumn (column : String) : Prop :=
  column.toList ≠ [] ∧ ∀ c ∈ column.toList, c ≠ ',' ∧ isWhitespace c = false

/-- A text of one line that is not blank at its ends. -/
def IsValue (value : String) : Prop :=
  value.toList ≠ [] ∧ trim value.toList = value.toList ∧ '\n' ∉ value.toList

def IsTag (tag : String) : Prop :=
  IsValue tag ∧ ',' ∉ tag.toList

/-- The columns of a strategy are plain, and there is one unless rows are appended. -/
def IsPlainStrategy : IncrementalStrategy → Prop
  | .append => True
  | .key columns | .partition columns => columns ≠ [] ∧ ∀ column ∈ columns, IsColumn column
  | .timeWindow column overlap => IsColumn column ∧ overlap = none

theorem isColumn_of_mem_splitColumns {column : String} (h : column ∈ splitColumns value) :
    IsColumn column := by
  obtain ⟨part, hpart, rfl⟩ := List.mem_map.1 h
  rw [List.mem_filter] at hpart
  refine ⟨?_, fun c hc => ?_⟩
  · rw [String.toList_ofList]
    simpa using hpart.2
  · rw [String.toList_ofList] at hc
    simpa using not_of_mem_splitOnP hpart.1 c hc

theorem isValue_trim (hne : trim value ≠ []) (h : '\n' ∉ value) :
    IsValue (String.ofList (trim value)) := by
  rw [IsValue, String.toList_ofList]
  exact ⟨hne, trim_trim value, fun hc => h (mem_of_mem_trim hc)⟩

theorem isTag_of_mem_splitTags (hvalue : '\n' ∉ value) {tag : String} (h : tag ∈ splitTags value) :
    IsTag tag := by
  obtain ⟨part, hpart, rfl⟩ := List.mem_map.1 h
  rw [List.mem_filter, List.mem_map] at hpart
  obtain ⟨⟨field, hfield, rfl⟩, hne⟩ := hpart
  refine ⟨isValue_trim (by simpa using hne) fun hc => hvalue ?_, ?_⟩
  · exact mem_of_mem_splitOnP hfield _ hc
  · rw [String.toList_ofList]
    intro hc
    simpa using not_of_mem_splitOnP hfield ',' (mem_of_mem_trim hc)

def joined (values : List String) : List Char :=
  List.intercalate [','] (values.map String.toList)

theorem map_ofList_map_toList (values : List String) :
    (values.map String.toList).map String.ofList = values := by
  simp [Function.comp_def]

theorem splitColumns_joined (h : ∀ column ∈ columns, IsColumn column) :
    splitColumns (joined columns) = columns := by
  by_cases hnil : columns = []
  · subst hnil
    rfl
  · have hfields : (joined columns).splitOnP (fun c => c == ',' || isWhitespace c) =
        columns.map String.toList := by
      refine splitOnP_intercalate (by simp) (by simpa using hnil) fun field hfield c hc => ?_
      obtain ⟨column, hcolumn, rfl⟩ := List.mem_map.1 hfield
      have hplain := (h column hcolumn).2 c hc
      simp [hplain.1, hplain.2]
    have hkept : (columns.map String.toList).filter (fun part => !part.isEmpty) =
        columns.map String.toList := by
      refine List.filter_eq_self.2 fun field hfield => ?_
      obtain ⟨column, hcolumn, rfl⟩ := List.mem_map.1 hfield
      simpa using (h column hcolumn).1
    rw [splitColumns, hfields, hkept, map_ofList_map_toList]

theorem splitTags_joined {tags : List String} (h : ∀ tag ∈ tags, IsTag tag) :
    splitTags (joined tags) = tags := by
  by_cases hnil : tags = []
  · subst hnil
    rfl
  · have hfields : (joined tags).splitOnP (fun c => c == ',') = tags.map String.toList := by
      refine splitOnP_intercalate (by simp) (by simpa using hnil) fun field hfield c hc => ?_
      obtain ⟨tag, htag, rfl⟩ := List.mem_map.1 hfield
      have hne : c ≠ ',' := fun heq => (h tag htag).2 (heq ▸ hc)
      simpa using hne
    have htrim : (tags.map String.toList).map trim = tags.map String.toList := by
      rw [List.map_map]
      exact List.map_congr_left fun tag htag => (h tag htag).1.2.1
    have hkept : (tags.map String.toList).filter (fun part => !part.isEmpty) =
        tags.map String.toList := by
      refine List.filter_eq_self.2 fun field hfield => ?_
      obtain ⟨tag, htag, rfl⟩ := List.mem_map.1 hfield
      simpa using (h tag htag).1.1
    rw [splitTags, hfields, htrim, hkept, map_ofList_map_toList]

/-! ## Sorted lists -/

theorem mem_sortColumns {value : String} : value ∈ sortColumns values ↔ value ∈ values := by
  rw [sortColumns, (List.pairwise_insertionSort (· ≤ ·) values).destutter_eq_dedup]
  simp

theorem sortedLT_sortColumns (values : List String) : (sortColumns values).SortedLT := by
  have hsorted := List.pairwise_insertionSort (· ≤ ·) values
  have hnodup : (sortColumns values).Nodup := by
    rw [sortColumns, hsorted.destutter_eq_dedup]
    exact List.nodup_dedup _
  exact (hsorted.sublist (List.destutter_sublist _ _)).sortedLE.sortedLT_of_nodup hnodup

theorem sortColumns_congr {others : List String} (h : ∀ value, value ∈ values ↔ value ∈ others) :
    sortColumns values = sortColumns others := by
  refine (sortedLT_sortColumns values).eq_of_mem_iff (sortedLT_sortColumns others) fun value => ?_
  rw [mem_sortColumns, mem_sortColumns]
  exact h value

/-! ## Lines that are directives -/

theorem parseLine_comment {name rest : List Char} (hname : name ≠ [])
    (hchars : ∀ c ∈ name, isNameChar c = true) (hrest : ∀ c ∈ rest.head?, isNameChar c = false) :
    parseLine ('-' :: '-' :: ' ' :: '@' :: (name ++ rest)) =
      some (String.ofList ('@' :: name), trim rest) := by
  have htake : (name ++ rest).takeWhile isNameChar = name := by
    rw [List.takeWhile_append_of_pos hchars]
    cases rest with
    | nil => simp
    | cons c rest => simp [hrest c rfl]
  have hdrop : (name ++ rest).dropWhile isNameChar = rest := by
    rw [List.dropWhile_append_of_pos hchars]
    cases rest with
    | nil => rfl
    | cons c rest => simp [hrest c rfl]
  have hstart : trimStart ('-' :: '-' :: ' ' :: '@' :: (name ++ rest)) =
      '-' :: '-' :: ' ' :: '@' :: (name ++ rest) := trimStart_cons (by decide)
  have hcomment : trimStart (' ' :: '@' :: (name ++ rest)) = '@' :: (name ++ rest) := by
    rw [trimStart, List.dropWhile_cons_of_pos (by decide)]
    exact trimStart_cons (by decide)
  simp only [parseLine, hstart, hcomment, htake, hdrop, if_neg hname]

theorem mem_of_parseLine {line : List Char} {name : String}
    (h : parseLine line = some (name, value)) {c : Char} (hc : c ∈ value) : c ∈ line := by
  unfold parseLine at h
  split at h
  · next comment hstart =>
      split at h
      · next body hcomment =>
          split_ifs at h
          cases h
          have hbody : c ∈ '@' :: body :=
            List.mem_cons_of_mem _ ((List.dropWhile_suffix _).subset (mem_of_mem_trim hc))
          rw [← hcomment] at hbody
          have hline : c ∈ '-' :: '-' :: comment :=
            List.mem_cons_of_mem _ (List.mem_cons_of_mem _ ((List.dropWhile_suffix _).subset hbody))
          rw [← hstart] at hline
          exact (List.dropWhile_suffix _).subset hline
      · cases h
  · cases h

/-! ## Values that are read -/

/-- The values of directives are plain. -/
structure Directives.Plain (d : Directives) : Prop where
  pinnedId : ∀ id ∈ d.pinnedId, IsValue id
  tags : ∀ tag ∈ d.tags, IsTag tag
  owner : ∀ owner ∈ d.owner, IsValue owner
  keys : ∀ column ∈ d.keys, IsColumn column
  notNull : ∀ column ∈ d.notNull, IsColumn column
  incremental : ∀ strategy ∈ d.incremental, IsPlainStrategy strategy

theorem plain_columnStrategy {key : String} (hcolumns : ∀ column ∈ columns, IsColumn column)
    (h : columnStrategy key columns = some strategy) : IsPlainStrategy strategy := by
  unfold columnStrategy at h
  split at h
  · cases h
    exact ⟨List.cons_ne_nil _ _, hcolumns⟩
  · cases h
    exact ⟨List.cons_ne_nil _ _, hcolumns⟩
  · cases h
    exact ⟨hcolumns _ List.mem_cons_self, rfl⟩
  · cases h

theorem plain_strategyOf (h : strategyOf value = some strategy) : IsPlainStrategy strategy := by
  unfold strategyOf at h
  split at h
  · exact plain_columnStrategy (fun column => isColumn_of_mem_splitColumns) h
  · split at h
    · split_ifs at h
      cases h
      trivial
    · cases h

namespace Directives

variable {d : Directives} {name : String} {number : Nat}

theorem Plain.issue (h : d.Plain) (kind : DirectiveIssueKind) : (d.issue name number kind).Plain :=
  ⟨h.pinnedId, h.tags, h.owner, h.keys, h.notNull, h.incremental⟩

theorem Plain.setMaterialization (h : d.Plain) (materialization : Materialization) :
    (d.setMaterialization name number materialization).Plain := by
  unfold Directives.setMaterialization
  split
  · split
    · exact h.issue _
    · exact h
  · exact ⟨h.pinnedId, h.tags, h.owner, h.keys, h.notNull, h.incremental⟩

theorem Plain.parseId (h : d.Plain) {value : List Char} (hvalue : '\n' ∉ value) :
    (d.parseId name number value).Plain := by
  unfold Directives.parseId
  split
  · exact h.issue _
  · next hne =>
      split
      · exact h.issue _
      · refine { h with pinnedId := fun id hid => ?_ }
        cases hid
        exact isValue_trim hne hvalue

theorem Plain.parseIncremental (h : d.Plain) (value : List Char) :
    (d.parseIncremental name number value).Plain := by
  unfold Directives.parseIncremental
  split
  · exact h.issue _
  · split
    · next strategy hstrategy =>
        have hplain := plain_strategyOf hstrategy
        have hread : ∀ read ∈ some strategy, IsPlainStrategy read := by
          rintro _ ⟨⟩
          exact hplain
        cases strategy with
        | key columns =>
          refine Plain.setMaterialization ?_ _
          refine ⟨h.pinnedId, h.tags, h.owner, fun column hcolumn => ?_, h.notNull, hread⟩
          rw [mem_sortColumns, List.mem_append] at hcolumn
          exact hcolumn.elim (h.keys column) (hplain.2 column)
        | append | partition _ | timeWindow _ _ =>
          refine Plain.setMaterialization ?_ _
          exact ⟨h.pinnedId, h.tags, h.owner, h.keys, h.notNull, hread⟩
    · exact h.issue _

theorem Plain.apply (h : d.Plain) {value : List Char} (hvalue : '\n' ∉ value) :
    (d.apply name number value).Plain := by
  unfold Directives.apply
  split
  · exact h.parseId hvalue
  · exact h.setMaterialization _
  · exact h.setMaterialization _
  · exact h.setMaterialization _
  · split
    · exact h.issue _
    · split
      · exact h.setMaterialization _
      · exact h.issue _
  · split
    · exact h.issue _
    · refine { h with tags := fun tag htag => ?_ }
      exact (List.mem_append.1 htag).elim (h.tags tag) (isTag_of_mem_splitTags hvalue)
  · split
    · exact h.issue _
    · next hne =>
        refine { h with owner := ?_ }
        rintro _ ⟨⟩
        exact isValue_trim hne hvalue
  · split
    · exact h.issue _
    · refine { h with keys := fun column hcolumn => ?_ }
      exact (List.mem_append.1 hcolumn).elim (h.keys column) isColumn_of_mem_splitColumns
  · split
    · exact h.issue _
    · refine { h with notNull := fun column hcolumn => ?_ }
      exact (List.mem_append.1 hcolumn).elim (h.notNull column) isColumn_of_mem_splitColumns
  · exact h.parseIncremental value
  · exact h.issue _

theorem Plain.line (h : d.Plain) {line : List Char × Nat} (hline : '\n' ∉ line.1) :
    (d.line line).Plain := by
  unfold Directives.line
  split
  · next name value hread => exact h.apply fun hc => hline (mem_of_parseLine hread hc)
  · exact h

theorem Plain.sorted (h : d.Plain) : d.sorted.Plain where
  pinnedId := h.pinnedId
  tags tag htag := h.tags tag (mem_sortColumns.1 htag)
  owner := h.owner
  keys column hcolumn := h.keys column (mem_sortColumns.1 hcolumn)
  notNull column hcolumn := h.notNull column (mem_sortColumns.1 hcolumn)
  incremental := h.incremental

theorem plain_empty : Directives.empty.Plain := by
  constructor <;> simp [Directives.empty]

end Directives

theorem plain_parseDirectives (sql : List Char) : (parseDirectives sql).Plain := by
  refine Directives.Plain.sorted (List.foldlRecOn _ _ (motive := Directives.Plain)
    Directives.plain_empty fun d hd line hmem => hd.line ?_)
  exact notMem_of_mem_textLines (List.fst_mem_of_mem_zipIdx hmem)

end PhloTransform.Sql
