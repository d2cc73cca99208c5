import PhloTransform.Dbt.ModelFiles

/-!
# The header of a translated model is read back

A header is kept when the file says what the header was meant to say, no other line of the file
is read as a directive, and every line of the header is a comment.  Titles, descriptions and
values are written as they are, so that this holds of plain ones alone.

Main results:

- Theorem `Header.foldl_directives`: what reading the directives of a header yields.
- Theorem `Header.keeps_iff`: the headers that are kept.
-/

namespace PhloTransform.Dbt

open Core (IncrementalStrategy Materialization isSegmentChar isWhitespace sortColumns trim trimStart
  trimStart_cons)
open Library (dropReturn linesFrom_single notMem_of_mem_textLines textLines textLines_flatMap
  textLines_single)
open Sql (Directives HeaderDirective IsColumn IsPlainStrategy IsTag IsValue mem_sortColumns
  parseDirectives parseLine plain_parseDirectives sortColumns_congr)

variable {line : List Char}

/-! ## What is said -/

def keyColumns : IncrementalStrategy → List String
  | .key columns => columns
  | _ => []

namespace Build

def materialization : Build → Materialization
  | view => .view
  | table => .table
  | ephemeral => .ephemeral
  | incremental _ => .incremental

def strategy : Build → Option IncrementalStrategy
  | incremental directive => some directive.strategy
  | _ => none

end Build

def IsDirective (line : List Char) : Prop :=
  (parseLine line).isSome = true

instance : DecidablePred IsDirective := fun line =>
  inferInstanceAs (Decidable ((parseLine line).isSome = true))

/-- Every line is a comment, and none a directive. -/
def Quiet (text : List Char) : Prop :=
  ∀ line ∈ textLines (text ++ ['\n']), ['-', '-'] <+: line ∧ ¬IsDirective line

namespace Header

variable (header : Header) (sql : List Char)

/-- What the header is meant to say: every value as it is given. -/
def said : Directives where
  pinnedId := header.id
  materialization := header.build.map Build.materialization
  tags := sortColumns header.tags
  owner := header.owner
  keys := sortColumns (((header.build.bind Build.strategy).toList.flatMap keyColumns) ++ header.key)
  notNull := sortColumns header.notNull
  incremental := header.build.bind Build.strategy
  issues := []

/-- The directives of a header survive in the file. -/
structure Keeps : Prop where
  read : parseDirectives (composeFile header sql) = header.said
  /-- No line of a description, of a value or of the SQL is a directive. -/
  only : (textLines (composeFile header sql)).filter IsDirective =
    header.directives.map HeaderDirective.line
  comments : ∀ line ∈ textLines header.text, ['-', '-'] <+: line

/-- The values of a header are plain. -/
structure PlainValues : Prop where
  id : ∀ id ∈ header.id, IsValue id
  strategy : ∀ strategy ∈ header.build.bind Build.strategy, IsPlainStrategy strategy
  key : ∀ column ∈ header.key, IsColumn column
  tags : ∀ tag ∈ header.tags, IsTag tag
  owner : ∀ owner ∈ header.owner, IsValue owner
  notNull : ∀ column ∈ header.notNull, IsColumn column

/-- Plain values and texts before SQL without directives. -/
structure Plain : Prop extends header.PlainValues where
  texts : ∀ text ∈ header.title :: header.notes, Quiet text
  sql : ∀ line ∈ sqlLines sql, ¬IsDirective line

end Header

/-! ## Runs over lines -/

theorem foldl_quiet {lines : List (List Char)} (h : ∀ line ∈ lines, ¬IsDirective line) (d : Directives)
    (number : Nat) : (lines.zipIdx number).foldl Directives.line d = d := by
  induction lines generalizing number with
  | nil => rfl
  | cons line lines ih =>
    rw [List.forall_mem_cons] at h
    have hnone : parseLine line = none := by simpa [IsDirective] using h.1
    have hline : d.line (line, number) = d := by rw [Directives.line, hnone]
    rw [List.zipIdx_cons, List.foldl_cons, hline]
    exact ih h.2 _

/-- Each directive says what has not been said before. -/
def Admits (d : Directives) : List HeaderDirective → Prop
  | [] => True
  | directive :: rest => directive.Free d ∧ Admits (directive.note d) rest

theorem foldl_line {directives : List HeaderDirective}
    (h : ∀ directive ∈ directives, directive.Plain) {d : Directives} (hadmits : Admits d directives)
    (number : Nat) :
    ((directives.map HeaderDirective.line).zipIdx number).foldl Directives.line d =
      directives.foldl HeaderDirective.note d := by
  induction directives generalizing d number with
  | nil => rfl
  | cons directive directives ih =>
    rw [List.forall_mem_cons] at h
    rw [List.map_cons, List.zipIdx_cons, List.foldl_cons, h.1.line_eq_note hadmits.1,
      List.foldl_cons]
    exact ih h.2 hadmits.2 _

theorem admits_append {d : Directives} {front back : List HeaderDirective} :
    Admits d (front ++ back) ↔
      Admits d front ∧ Admits (front.foldl HeaderDirective.note d) back := by
  induction front generalizing d with
  | nil => simp [Admits]
  | cons directive front ih =>
    rw [List.cons_append, Admits, Admits, ih, and_assoc, List.foldl_cons]

theorem admits_of_forall {directives : List HeaderDirective}
    (h : ∀ directive ∈ directives, ∀ d, directive.Free d) (d : Directives) :
    Admits d directives := by
  induction directives generalizing d with
  | nil => trivial
  | cons directive directives ih =>
    rw [List.forall_mem_cons] at h
    exact ⟨h.1 d, ih h.2 _⟩

namespace Header

variable {header : Header} {sql : List Char}

/-- The directives that can be repeated. -/
def listed (header : Header) : List HeaderDirective :=
  (if header.key = [] then [] else [.key header.key]) ++
    ((if header.tags = [] then [] else [.tags header.tags]) ++
      (header.owner.toList.map .owner ++ header.notNull.map .notNull))

theorem directives_eq (header : Header) :
    header.directives = header.id.toList.map .id ++
      (header.build.toList.map Build.directive ++ header.listed) := by
  simp only [directives, listed, List.append_assoc]

theorem free_listed : ∀ directive ∈ header.listed, ∀ d, directive.Free d := by
  intro directive hmem d
  simp only [listed, List.mem_append, List.mem_map, List.mem_ite_nil_left, List.mem_singleton] at hmem
  rcases hmem with ⟨-, rfl⟩ | ⟨-, rfl⟩ | ⟨owner, -, rfl⟩ | ⟨column, -, rfl⟩ <;> trivial

theorem admits_directives (header : Header) : Admits Directives.empty header.directives := by
  rw [directives_eq, admits_append, admits_append]
  refine ⟨?_, ?_, admits_of_forall free_listed _⟩
  · cases header.id with
    | none => trivial
    | some id => exact ⟨rfl, trivial⟩
  · have hfree : ∀ build : Build, build.directive.Free
        ((header.id.toList.map HeaderDirective.id).foldl HeaderDirective.note Directives.empty) := by
      intro build
      cases header.id with
      | none => cases build <;> rfl
      | some id => cases build <;> rfl
    cases header.build with
    | none => trivial
    | some build => exact ⟨hfree build, trivial⟩

theorem foldl_notNull (columns : List String) (d : Directives) :
    (columns.map HeaderDirective.notNull).foldl HeaderDirective.note d =
      { d with notNull := d.notNull ++ columns } := by
  induction columns generalizing d with
  | nil => simp
  | cons column columns ih =>
    rw [List.map_cons, List.foldl_cons, ih, HeaderDirective.note, List.append_assoc]
    rfl

theorem foldl_listed (header : Header) (d : Directives) :
    header.listed.foldl HeaderDirective.note d =
      { d with
        keys := d.keys ++ header.key
        tags := d.tags ++ header.tags
        owner := header.owner <|> d.owner
        notNull := d.notNull ++ header.notNull } := by
  have hkey : ∀ d : Directives, (if header.key = [] then [] else [HeaderDirective.key header.key]).foldl
      HeaderDirective.note d = { d with keys := d.keys ++ header.key } := by
    intro d
    split
    · next hnil => simp [hnil]
    · rfl
  have htags : ∀ d : Directives, (if header.tags = [] then [] else [HeaderDirective.tags header.tags]).foldl
      HeaderDirective.note d = { d with tags := d.tags ++ header.tags } := by
    intro d
    split
    · next hnil => simp [hnil]
    · rfl
  have howner : ∀ d : Directives, (header.owner.toList.map HeaderDirective.owner).foldl
      HeaderDirective.note d = { d with owner := header.owner <|> d.owner } := by
    intro d
    cases header.owner <;> rfl
  rw [listed, List.foldl_append, hkey, List.foldl_append, htags, List.foldl_append, howner,
    foldl_notNull]

theorem foldl_identity (id : Option String) (build : Option Build) :
    ∃ keys, (∀ column, column ∈ keys ↔
        column ∈ (build.bind Build.strategy).toList.flatMap keyColumns) ∧
      (build.toList.map Build.directive).foldl HeaderDirective.note
          ((id.toList.map HeaderDirective.id).foldl HeaderDirective.note Directives.empty) =
        { Directives.empty with
          pinnedId := id
          materialization := build.map Build.materialization
          keys := keys
          incremental := build.bind Build.strategy } := by
  have hid : (id.toList.map HeaderDirective.id).foldl HeaderDirective.note Directives.empty =
      { Directives.empty with pinnedId := id } := by
    cases id <;> rfl
  rw [hid]
  cases build with
  | none => exact ⟨[], by simp, rfl⟩
  | some build =>
    cases build with
    | view | table | ephemeral => exact ⟨[], by simp [Build.strategy], rfl⟩
    | incremental directive =>
      cases directive with
      | key columns =>
        refine ⟨sortColumns ([] ++ columns), fun column => ?_, rfl⟩
        simp [mem_sortColumns, Build.strategy, Directive.strategy, keyColumns]
      | partition _ | window _ | append =>
        exact ⟨[], by simp [Build.strategy, Directive.strategy, keyColumns], rfl⟩

theorem foldl_directives (header : Header) :
    (header.directives.foldl HeaderDirective.note Directives.empty).sorted = header.said := by
  obtain ⟨keys, hkeys, hfold⟩ := foldl_identity header.id header.build
  have hsorted : sortColumns (keys ++ header.key) =
      sortColumns ((header.build.bind Build.strategy).toList.flatMap keyColumns ++ header.key) := by
    refine sortColumns_congr fun column => ?_
    rw [List.mem_append, List.mem_append, hkeys]
  rw [directives_eq, List.foldl_append, List.foldl_append, hfold, foldl_listed, said, ← hsorted]
  simp [Directives.sorted, Directives.empty]

/-! ## Headers that are kept -/

theorem PlainValues.directive (h : header.PlainValues) :
    ∀ directive ∈ header.directives, directive.Plain := by
  intro directive hmem
  simp only [directives_eq, listed, List.mem_append, List.mem_map, List.mem_ite_nil_left,
    List.mem_singleton, Option.mem_toList] at hmem
  rcases hmem with ⟨id, hid, rfl⟩ | ⟨build, hbuild, rfl⟩ | ⟨hne, rfl⟩ | ⟨hne, rfl⟩ |
    ⟨owner, howner, rfl⟩ | ⟨column, hcolumn, rfl⟩
  · exact h.id id hid
  · cases build with
    | view | table | ephemeral => exact fun heq => by cases heq
    | incremental directive => exact h.strategy _ (Option.mem_bind_iff.2 ⟨_, hbuild, rfl⟩)
  · exact ⟨hne, h.key⟩
  · exact ⟨hne, h.tags⟩
  · exact h.owner owner howner
  · exact h.notNull column hcolumn

def frontLines (header : Header) : List (List Char) :=
  (header.title :: header.notes).flatMap fun text => textLines (text ++ ['\n'])

theorem PlainValues.flatMap_texts (h : header.PlainValues) :
    header.texts.flatMap (fun text => textLines (text ++ ['\n'])) =
      header.frontLines ++ header.directives.map HeaderDirective.line := by
  have hdirectives : (header.directives.map HeaderDirective.line).flatMap
      (fun text => textLines (text ++ ['\n'])) = header.directives.map HeaderDirective.line := by
    rw [List.flatMap_map, List.map_eq_flatMap]
    refine List.flatMap_congr fun directive hmem => ?_
    have hplain := h.directive directive hmem
    exact textLines_single hplain.notMem_line hplain.getLast?_line
  rw [texts, ← List.cons_append, List.flatMap_append, hdirectives, frontLines]

theorem PlainValues.filter_line (h : header.PlainValues) :
    (header.directives.map HeaderDirective.line).filter IsDirective =
      header.directives.map HeaderDirective.line := by
  refine List.filter_eq_self.2 (List.forall_mem_map.2 fun directive hmem => ?_)
  simp [IsDirective, (h.directive directive hmem).parseLine_line]

theorem PlainValues.lines (h : header.PlainValues) (sql : List Char) :
    textLines (composeFile header sql) =
      header.frontLines ++ (header.directives.map HeaderDirective.line ++ sqlLines sql) := by
  rw [textLines_file, h.flatMap_texts, List.append_assoc]

theorem mem_frontLines {line : List Char} :
    line ∈ header.frontLines ↔
      ∃ text ∈ header.title :: header.notes, line ∈ textLines (text ++ ['\n']) :=
  List.mem_flatMap

theorem textLines_text (header : Header) :
    textLines header.text = header.texts.flatMap fun text => textLines (text ++ ['\n']) := by
  rw [text, ← List.append_nil (List.flatMap _ _), textLines_flatMap]
  exact List.append_nil _

theorem Plain.keeps (h : header.Plain sql) : header.Keeps sql := by
  have hfront : ∀ line ∈ header.frontLines, ['-', '-'] <+: line ∧ ¬IsDirective line := by
    intro line hline
    obtain ⟨text, htext, hmem⟩ := mem_frontLines.1 hline
    exact h.texts text htext line hmem
  refine ⟨?_, ?_, ?_⟩
  · rw [parseDirectives, h.lines, List.zipIdx_append, List.foldl_append,
      foldl_quiet fun line hline => (hfront line hline).2, List.zipIdx_append, List.foldl_append,
      foldl_line h.directive header.admits_directives, foldl_quiet h.sql, foldl_directives]
  · rw [h.lines, List.filter_append, List.filter_append, h.filter_line,
      List.filter_eq_nil_iff.2 (by simpa using fun line hline => (hfront line hline).2),
      List.filter_eq_nil_iff.2 (by simpa using h.sql), List.nil_append, List.append_nil]
  · intro line hline
    rw [textLines_text, h.flatMap_texts, List.mem_append] at hline
    rcases hline with hline | hline
    · exact (hfront line hline).1
    · obtain ⟨directive, -, rfl⟩ := List.mem_map.1 hline
      exact ⟨_, rfl⟩

theorem Keeps.values (h : header.Keeps sql) : header.PlainValues := by
  have hplain : header.said.Plain := h.read ▸ plain_parseDirectives _
  exact
    { id := hplain.pinnedId
      strategy := hplain.incremental
      key := fun column hcolumn =>
        hplain.keys column (mem_sortColumns.2 (List.mem_append_right _ hcolumn))
      tags := fun tag htag => hplain.tags tag (mem_sortColumns.2 htag)
      owner := hplain.owner
      notNull := fun column hcolumn => hplain.notNull column (mem_sortColumns.2 hcolumn) }

theorem Keeps.plain (h : header.Keeps sql) : header.Plain sql := by
  have honly := h.only
  rw [h.values.lines, List.filter_append, List.filter_append, h.values.filter_line] at honly
  -- the directives of the header leave no room for others
  have hlength := congrArg List.length honly
  rw [List.length_append, List.length_append] at hlength
  have hfront : header.frontLines.filter IsDirective = [] :=
    List.eq_nil_of_length_eq_zero (by omega)
  have hsql : (sqlLines sql).filter IsDirective = [] := List.eq_nil_of_length_eq_zero (by omega)
  refine ⟨h.values, fun text htext line hline => ⟨?_, ?_⟩, by simpa using hsql⟩
  · refine h.comments line ?_
    rw [textLines_text, h.values.flatMap_texts]
    exact List.mem_append_left _ (mem_frontLines.2 ⟨text, htext, hline⟩)
  · rw [List.filter_eq_nil_iff] at hfront
    simpa using hfront line (mem_frontLines.2 ⟨text, htext, hline⟩)

theorem keeps_iff : header.Keeps sql ↔ header.Plain sql :=
  ⟨Keeps.plain, Plain.keeps⟩

end Header

/-! ## Lines of descriptions -/

/-- A line begins with a name behind an `@`. -/
def NamesDirective (line : List Char) : Prop :=
  match trimStart line with
  | '@' :: c :: _ => Sql.isNameChar c = true
  | _ => False

theorem isDirective_note : IsDirective ('-' :: '-' :: ' ' :: line) ↔ NamesDirective line := by
  have hstart : trimStart ('-' :: '-' :: ' ' :: line) = '-' :: '-' :: ' ' :: line :=
    trimStart_cons (by decide)
  have hcomment : trimStart (' ' :: line) = trimStart line :=
    List.dropWhile_cons_of_pos (by decide)
  simp only [IsDirective, parseLine, hstart, hcomment, NamesDirective]
  split
  · next body heq =>
      cases body with
      | nil => simp [heq]
      | cons c body =>
        rw [heq]
        cases hc : Sql.isNameChar c <;> simp [hc]
  · next hne =>
      split
      · next c rest heq => exact absurd heq (hne _)
      · simp

theorem namesDirective_dropReturn : NamesDirective (dropReturn line) ↔ NamesDirective line := by
  unfold dropReturn
  split
  · next hlast =>
      obtain ⟨front, rfl⟩ := List.getLast?_eq_some_iff.1 hlast
      rw [List.dropLast_concat, NamesDirective, NamesDirective, trimStart, trimStart,
        List.dropWhile_append]
      -- a carriage return is no letter of a name
      cases hfront : front.dropWhile isWhitespace with
      | nil =>
        have hreturn : ['\r'].dropWhile isWhitespace = [] := by decide
        simp [hreturn]
      | cons a rest =>
        cases rest with
        | nil => by_cases ha : a = '@' <;> simp [ha, Sql.isNameChar]
        | cons b rest => by_cases ha : a = '@' <;> simp [ha]
  · rfl

theorem dropReturn_note (line : List Char) :
    dropReturn ('-' :: '-' :: ' ' :: line) = '-' :: '-' :: ' ' :: dropReturn line := by
  obtain rfl | ⟨front, c, rfl⟩ := List.eq_nil_or_concat line
  · decide
  · have hcons : '-' :: '-' :: ' ' :: (front.concat c) = ('-' :: '-' :: ' ' :: front) ++ [c] := by simp
    rw [hcons, List.concat_eq_append, dropReturn, dropReturn, List.getLast?_concat,
      List.getLast?_concat, List.dropLast_concat, List.dropLast_concat]
    split <;> rfl

theorem quiet_note (h : '\n' ∉ line) : Quiet ("-- ".toList ++ line) ↔ ¬NamesDirective line := by
  have hnote : '\n' ∉ '-' :: '-' :: ' ' :: line := by simpa using h
  have hread : textLines (('-' :: '-' :: ' ' :: line) ++ ['\n']) =
      ['-' :: '-' :: ' ' :: dropReturn line] := by
    rw [textLines, linesFrom_single hnote, List.nil_append, dropReturn_note]
  change (∀ read ∈ textLines (('-' :: '-' :: ' ' :: line) ++ ['\n']), _) ↔ _
  rw [hread, List.forall_mem_singleton, isDirective_note, namesDirective_dropReturn]
  exact and_iff_right ⟨_, rfl⟩

/-! ## Models -/

namespace DbtProject

variable {r : Renderer} {p : DbtProject}

theorem toList_identity (p : DbtProject) (model : DbtSqlFile) :
    (p.identity model).toList = List.intercalate ['.']
      (((identityNames p.name model.dir model.stem).map sanitizeSegment).map String.toList) := by
  rw [identity, logicalName_eq, String.toList_intercalate]
  rfl

theorem isNameChar_identity {model : DbtSqlFile} {c : Char} (hc : c ∈ (p.identity model).toList) :
    Core.isNameChar c = true := by
  rw [toList_identity] at hc
  rcases Core.mem_of_mem_intercalate hc with hdot | ⟨part, hpart, hmem⟩
  · rw [List.mem_singleton.1 hdot]
    decide
  · simp only [List.map_map, List.mem_map, Function.comp_apply] at hpart
    obtain ⟨name, -, rfl⟩ := hpart
    simp [Core.isNameChar, isSegmentChar_of_mem_sanitizeSegment hmem]

theorem identity_ne_nil (p : DbtProject) (model : DbtSqlFile) : (p.identity model).toList ≠ [] := by
  rw [toList_identity]
  -- there are two names at least, with a dot between them
  cases hdir : model.dir with
  | nil => simp [identityNames]
  | cons first rest => cases rest <;> simp [identityNames]

theorem isValue_identity (p : DbtProject) (model : DbtSqlFile) : IsValue (p.identity model) :=
  ⟨p.identity_ne_nil model,
    Core.trim_eq_self fun _ hc => Core.isWhitespace_of_isNameChar (isNameChar_identity hc),
    fun hc => absurd (isNameChar_identity hc) (by decide)⟩

variable (r p)

/-- The texts of a model are no directives, and its values are plain. -/
structure PlainModel (sql : DbtSqlFile → List Char) (model : DbtSqlFile) : Prop where
  title : Quiet (modelTitle model)
  descriptions : ∀ description ∈ p.modelDescriptions r model,
    ∀ line ∈ textLines (trim description.toList), ¬NamesDirective line
  sql : ∀ line ∈ sqlLines (sql model), ¬IsDirective line
  strategy : ∀ directive, p.build r model = some (.incremental directive) →
    IsPlainStrategy directive.strategy
  key : (p.modelConfig r model).materialized ≠ "incremental" →
    ∀ column ∈ (p.modelConfig r model).uniqueKey, IsColumn column
  tags : ∀ tag ∈ p.modelTags r model, IsTag tag
  owner : ∀ owner ∈ p.modelOwner r model, IsValue owner
  notNull : ∀ column ∈ (p.modelTests r model).notNull, IsColumn column

/-- The file of a model says what the translation means, and nothing else. -/
def KeepsHeader (sql : DbtSqlFile → List Char) (model : DbtSqlFile) : Prop :=
  (p.modelHeader r model).Keeps (sql model)

variable {r p}

theorem forall_notes_iff {model : DbtSqlFile} :
    (∀ note ∈ (p.modelHeader r model).notes, Quiet note) ↔
      ∀ description ∈ p.modelDescriptions r model,
        ∀ line ∈ textLines (trim description.toList), ¬NamesDirective line := by
  have hdescription : ∀ description : String, (∀ note ∈ noteLines description, Quiet note) ↔
      ∀ line ∈ textLines (trim description.toList), ¬NamesDirective line := by
    intro description
    rw [noteLines, List.forall_mem_map]
    exact forall₂_congr fun line hline => quiet_note (notMem_of_mem_textLines hline)
  rw [modelHeader, List.forall_mem_flatMap]
  exact forall₂_congr fun description _ => hdescription description

/-- The models whose headers are kept. -/
theorem keepsHeader_iff (sql : DbtSqlFile → List Char) (model : DbtSqlFile) :
    p.KeepsHeader r sql model ↔ p.PlainModel r sql model := by
  rw [KeepsHeader, Header.keeps_iff]
  constructor
  · rintro ⟨hvalues, htexts, hsql⟩
    rw [List.forall_mem_cons, forall_notes_iff] at htexts
    refine ⟨htexts.1, htexts.2, hsql, ?_, ?_, ?_, hvalues.owner, hvalues.notNull⟩
    · intro directive hbuild
      exact hvalues.strategy _ (Option.mem_bind_iff.2 ⟨_, hbuild, rfl⟩)
    · intro hne
      have hkey := hvalues.key
      rwa [modelHeader, if_neg hne] at hkey
    · exact fun tag htag => hvalues.tags tag (mem_sortColumns.2 htag)
  · intro h
    refine ⟨⟨?_, ?_, ?_, ?_, h.owner, h.notNull⟩, ?_, h.sql⟩
    · intro id hid
      obtain ⟨schema, -, rfl⟩ := Option.map_eq_some_iff.1 hid
      exact p.isValue_identity model
    · intro strategy hstrategy
      obtain ⟨build, hbuild, hof⟩ := Option.mem_bind_iff.1 hstrategy
      cases build with
      | view | table | ephemeral => cases hof
      | incremental directive =>
        cases hof
        exact h.strategy directive hbuild
    · rw [modelHeader]
      split
      · simp
      · next hne => exact h.key hne
    · exact fun tag htag => h.tags tag (mem_sortColumns.1 htag)
    · rw [List.forall_mem_cons, forall_notes_iff]
      exact ⟨h.title, h.descriptions⟩

namespace Sample

def properties : DbtPropertyFile where
  relPath := "models/schema.yml"
  root := .mapping [(.string "models", .sequence [.mapping
    [(.string "name", .string "orders"), (.string "description", .string "@owner mallory"),
      (.string "tags", .sequence [.string "north,east"])]])]

def describedProject : DbtProject :=
  { project with models := [model "orders"], propertyFiles := [properties] }

def selectOne (_ : DbtSqlFile) : List Char :=
  "select 1".toList

/-- The model `orders` is clean, its description becomes its owner, and its tag two tags. -/
theorem description_read_as_owner :
    describedProject.IsClean renderer (model "orders") ∧
      (parseDirectives (describedProject.modelFile renderer selectOne (model "orders"))).owner =
        some "mallory" ∧
      (parseDirectives (describedProject.modelFile renderer selectOne (model "orders"))).tags =
        ["east", "north"] ∧
      (describedProject.modelHeader renderer (model "orders")).said.owner = none ∧
      ¬describedProject.KeepsHeader renderer selectOne (model "orders") := by
  have hclean : describedProject.IsClean renderer (model "orders") := by
    unfold IsClean
    decide +kernel
  have howner : (parseDirectives
      (describedProject.modelFile renderer selectOne (model "orders"))).owner = some "mallory" := by
    decide +kernel
  have htags : (parseDirectives
      (describedProject.modelFile renderer selectOne (model "orders"))).tags =
        ["east", "north"] := by
    decide +kernel
  have hsaid : (describedProject.modelHeader renderer (model "orders")).said.owner = none := by
    decide +kernel
  refine ⟨hclean, howner, htags, hsaid, fun h => ?_⟩
  have hread := congrArg Directives.owner h.read
  rw [hsaid] at hread
  exact absurd (howner.symm.trans hread) (by decide)

end Sample

end DbtProject

end PhloTransform.Dbt
