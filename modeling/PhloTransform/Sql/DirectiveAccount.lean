import PhloTransform.Sql.DirectiveRuns

/-!
# No directive is ignored or invented

A directive that stands alone on its line should contribute its whole value or be reported, and a
line of a string, of a quoted name or of a block comment should contribute nothing.  Directives
are read line by line, the last owner and the last strategy are taken without a report, and text
after a short form, after `append` and after the first column of a window is dropped.

Main results:

- Theorem `line_eq_self_iff`: the lines that contribute nothing.
- Theorem `contributes_iff`: what a directive that is not reported contributes.
-/

namespace PhloTransform.Sql

open Core (IncrementalStrategy Materialization isWhitespace trim)
open Library (Agree textLines)

variable {lexis : Lexis}

/-! ## Lexical structure -/

/-- Where the lines of a text begin: the region of its first line, and the one after a line that
begins in a region.  A line that does not begin in `code` is part of a string, of a quoted name or
of a block comment. -/
structure Lexis where
  Region : Type
  code : Region
  after : Region → List Char → Region

def Lexis.region (lexis : Lexis) (lines : List (List Char)) (i : Nat) : lexis.Region :=
  (lines.take i).foldl lexis.after lexis.code

/-- What a position of a text is part of. -/
inductive LexicalRegion where
  | code
  | quoted (delimiter : Char)
  | comment (depth : Nat)
deriving Repr, DecidableEq

/-- The delimiters of strings and of quoted names. -/
def delimiters : List Char :=
  "'\"`".toList

/-- The region after a line.  A delimiter that is doubled closes and opens its region, a line
comment ends with its line, and block comments nest. -/
def LexicalRegion.scan : LexicalRegion → List Char → LexicalRegion
  | region, [] => region
  | .code, '-' :: '-' :: _ => .code
  | .code, '/' :: '*' :: rest => LexicalRegion.scan (.comment 0) rest
  | .code, c :: rest => LexicalRegion.scan (if c ∈ delimiters then .quoted c else .code) rest
  | .quoted delimiter, c :: rest =>
    LexicalRegion.scan (if c = delimiter then .code else .quoted delimiter) rest
  | .comment 0, '*' :: '/' :: rest => LexicalRegion.scan .code rest
  | .comment (depth + 1), '*' :: '/' :: rest => LexicalRegion.scan (.comment depth) rest
  | .comment depth, '/' :: '*' :: rest => LexicalRegion.scan (.comment (depth + 1)) rest
  | .comment depth, _ :: rest => LexicalRegion.scan (.comment depth) rest

/-- Strings, quoted names and nested comments. -/
def Lexis.standard : Lexis where
  Region := LexicalRegion
  code := .code
  after := LexicalRegion.scan

/-! ## What a directive contributes -/

/-- The names of directives that are known. -/
def knownNames : List String :=
  ["@id", "@view", "@table", "@ephemeral", "@materialized", "@tags", "@owner", "@key", "@not-null",
    "@incremental"]

def words (value : List Char) : List (List Char) :=
  (value.splitOnP isWhitespace).filter fun part => !part.isEmpty

/-- The columns after the equal sign of a value. -/
def strategyColumns (value : List Char) : List String :=
  splitColumns (value.dropWhile (· != '=')).tail

/-- A value that names a strategy and nothing else. -/
def Spells (value : List Char) : IncrementalStrategy → Prop
  | .append => ∃ word, words value = [word] ∧ asciiLower word = "append".toList
  | .key columns | .partition columns => strategyColumns value = columns
  | .timeWindow column overlap => strategyColumns value = [column] ∧ overlap = none

/-- The whole value of a directive is part of what was read. -/
def Contributes (d : Directives) (r : Reading) : Prop :=
  match r.name with
  | "@id" => d.pinnedId = some (String.ofList (trim r.value))
  | "@view" => r.value = [] ∧ d.materialization = some .view
  | "@table" => r.value = [] ∧ d.materialization = some .table
  | "@ephemeral" => r.value = [] ∧ d.materialization = some .ephemeral
  | "@materialized" =>
    ∃ m, parseMaterialization r.value = some m ∧ d.materialization = some m
  | "@tags" => ∀ tag ∈ splitTags r.value, tag ∈ d.tags
  | "@owner" => d.owner = some (String.ofList (trim r.value))
  | "@key" => ∀ column ∈ splitColumns r.value, column ∈ d.keys
  | "@not-null" => ∀ column ∈ splitColumns r.value, column ∈ d.notNull
  | "@incremental" =>
    ∃ strategy, strategyOf (trim r.value) = some strategy ∧ Spells (trim r.value) strategy ∧
      d.incremental = some strategy ∧ d.materialization = some .incremental ∧
      ∀ column ∈ Reading.keyColumns strategy, column ∈ d.keys
  | _ => False

/-- A directive that stands alone on its line. -/
def IsDirectiveLine (lexis : Lexis) (lines : List (List Char)) (i : Nat) : Prop :=
  lexis.region lines i = lexis.code ∧ ∃ line, lines[i]? = some line ∧ (parseLine line).isSome

/-- A text whose directive lines have changed places. -/
structure Rearranged (lexis : Lexis) (sql other : List Char) : Prop where
  perm : (textLines other).Perm (textLines sql)
  kept : ∀ i, ¬ IsDirectiveLine lexis (textLines sql) i →
    (textLines other)[i]? = (textLines sql)[i]?

/-- Every directive of a text is accounted for, and nothing else is read. -/
structure Accounted (lexis : Lexis) (sql : List Char) : Prop where
  /-- A known directive that stands alone contributes its whole value or is reported. -/
  heard : ∀ i line name value, (textLines sql)[i]? = some line →
    lexis.region (textLines sql) i = lexis.code → parseLine line = some (name, value) →
    name ∈ knownNames →
      Contributes (parseDirectives sql) ⟨name, value, i + 1⟩ ∨
        ∃ issue ∈ (parseDirectives sql).issues, issue.line = i + 1
  /-- A line of a string, of a quoted name or of a comment changes nothing. -/
  silent : ∀ i line, (textLines sql)[i]? = some line →
    lexis.region (textLines sql) i ≠ lexis.code → ∀ d : Directives, d.line (line, i) = d
  /-- Where nothing is reported, the directive lines may change places. -/
  unordered : (parseDirectives sql).issues = [] → ∀ other, Rearranged lexis sql other →
    parseDirectives other = parseDirectives sql

/-! ## The condition -/

/-- A directive with text that names neither its materialization nor its strategy: a value of a
short form, words after `append`, columns after the first one of a window. -/
def Reading.Surplus (r : Reading) : Prop :=
  match r.name with
  | "@view" | "@table" | "@ephemeral" => r.value ≠ []
  | "@incremental" =>
    match strategyOf (trim r.value) with
    | some .append => 1 < (words (trim r.value)).length
    | some (.timeWindow _ _) => 1 < (strategyColumns (trim r.value)).length
    | _ => False
  | _ => False

/-- The first materialization that a text asks for. -/
def firstMaterialization (sql : List Char) : Option Materialization :=
  (readings sql).findSome? Reading.materialization

/-- The texts of which every directive is accounted for. -/
structure Regular (lexis : Lexis) (sql : List Char) : Prop where
  /-- No line of a string, of a quoted name or of a comment looks like a directive. -/
  unread : ∀ i line, (textLines sql)[i]? = some line →
    lexis.region (textLines sql) i ≠ lexis.code → parseLine line = none
  owners : Agree Reading.owner (readings sql)
  /-- Directives that ask for the first materialization have no other text. -/
  whole : ∀ r ∈ readings sql, ∀ m ∈ r.materialization,
    firstMaterialization sql = some m → ¬ r.Surplus
  /-- One strategy is named, where the first materialization is that of a strategy. -/
  strategies : firstMaterialization sql = some .incremental →
    Agree Reading.strategy (readings sql)

/-! ## Lines that contribute nothing -/

theorem Reading.refused_of_silent {r : Reading} (hid : r.pinnedId = none)
    (hmat : r.materialization = none) (howner : r.owner = none) (htags : r.tags = [])
    (hkeys : r.keys = []) (hnotNull : r.notNull = []) : r.Refused := by
  unfold Reading.Refused
  split <;>
    simp_all [Reading.pinnedId, Reading.materialization, Reading.owner, Reading.tags, Reading.keys,
      Reading.notNull]

/-- The lines that contribute nothing are those that are not directives. -/
theorem line_eq_self_iff {line : List Char} {i : Nat} :
    (∀ d : Directives, d.line (line, i) = d) ↔ parseLine line = none := by
  constructor
  · intro h
    cases hread : parseLine line with
    | none => rfl
    | some read =>
      -- a directive of a text that says nothing else is seen
      have hsame : Directives.empty.read ⟨read.1, read.2, i + 1⟩ = .empty := by
        have hline := h .empty
        rwa [Directives.line, hread] at hline
      have hreads := apply_reads .empty ⟨read.1, read.2, i + 1⟩
      rw [hsame] at hreads
      have hrefused : Reading.Refused ⟨read.1, read.2, i + 1⟩ := by
        refine Reading.refused_of_silent ?_ ?_ ?_ ?_ ?_ ?_
        · exact hreads.pinnedId.symm
        · exact hreads.materialization.symm
        · exact (Option.or_none.symm.trans hreads.owner.symm)
        · exact List.eq_nil_iff_forall_not_mem.2 fun tag htag =>
            List.not_mem_nil ((hreads.tags tag).2 (.inr htag))
        · exact List.eq_nil_iff_forall_not_mem.2 fun column hcolumn =>
            List.not_mem_nil ((hreads.keys column).2 (.inr hcolumn))
        · exact List.eq_nil_iff_forall_not_mem.2 fun column hcolumn =>
            List.not_mem_nil ((hreads.notNull column).2 (.inr hcolumn))
      rcases hreads.issues with ⟨-, hnot⟩ | ⟨⟨kind, hissues⟩, -⟩
      · exact absurd (.inl hrefused) hnot
      · cases hissues
  · intro h d
    rw [Directives.line, h]

/-! ## Directives that contribute -/

/-- A strategy is spelled by its value when there is no other text. -/
theorem spells_iff {r : Reading} (hname : r.name = "@incremental") {strategy : IncrementalStrategy}
    (h : strategyOf (trim r.value) = some strategy) :
    Spells (trim r.value) strategy ↔ ¬ r.Surplus := by
  simp only [Reading.Surplus, hname, h]
  generalize trim r.value = value at h ⊢
  unfold strategyOf at h
  split at h
  · next columns hcolumns =>
      have hafter : strategyColumns value = splitColumns columns := by
        rw [strategyColumns, hcolumns, List.tail_cons]
      unfold columnStrategy at h
      split at h
      · cases h
        exact iff_of_true hafter not_false
      · cases h
        exact iff_of_true hafter not_false
      · next column rest hsplit =>
          cases h
          rw [hsplit] at hafter
          simp [Spells, hafter]
      · cases h
  · split at h
    · next word hword =>
        split_ifs at h with happend
        cases h
        obtain ⟨rest, hrest⟩ : ∃ rest, words value = word :: rest := by
          rw [words]
          cases hwords : (value.splitOnP isWhitespace).filter fun part => !part.isEmpty with
          | nil => rw [hwords] at hword; cases hword
          | cons first rest =>
            rw [hwords] at hword
            cases hword
            exact ⟨rest, rfl⟩
        simp [Spells, hrest, happend]
    · cases h

/-- What a directive that is not reported contributes: its whole value when there is no other text,
and when its owner and its strategy are the ones that were read. -/
theorem contributes_iff {rs : List Reading} {r : Reading} (hr : r ∈ rs)
    (hrefused : ¬ r.Refused) (hid : ∀ id ∈ r.pinnedId, (run rs).pinnedId = some id)
    (hmat : ∀ m ∈ r.materialization, (run rs).materialization = some m) :
    Contributes (run rs).sorted r ↔ ¬ r.Surplus ∧
      (∀ owner ∈ r.owner, (run rs).owner = some owner) ∧
      ∀ strategy ∈ r.strategy, (run rs).incremental = some strategy := by
  obtain ⟨name, value, line⟩ := r
  unfold Contributes
  dsimp only
  split
  · -- `@id`
    have hdeclared : (run rs).sorted.pinnedId = some (String.ofList (trim value)) :=
      hid _ (if_pos ⟨rfl, hrefused⟩)
    simpa [Reading.Surplus, Reading.owner, Reading.strategy] using hdeclared
  · have hview : (run rs).materialization = some .view := hmat _ rfl
    simp [Reading.Surplus, Reading.owner, Reading.strategy, Directives.sorted, hview]
  · have htable : (run rs).materialization = some .table := hmat _ rfl
    simp [Reading.Surplus, Reading.owner, Reading.strategy, Directives.sorted, htable]
  · have hephemeral : (run rs).materialization = some .ephemeral := hmat _ rfl
    simp [Reading.Surplus, Reading.owner, Reading.strategy, Directives.sorted, hephemeral]
  · obtain ⟨m, hm⟩ : ∃ m, parseMaterialization value = some m :=
      Option.ne_none_iff_exists'.1 hrefused
    have hfirst : (run rs).materialization = some m := hmat m hm
    simp [Reading.Surplus, Reading.owner, Reading.strategy, Directives.sorted, hm, hfirst]
  · have htags : ∀ tag ∈ splitTags value, tag ∈ (run rs).sorted.tags :=
      fun tag htag => mem_sortColumns.2 (mem_run_tags.2 ⟨_, hr, htag⟩)
    simpa [Reading.Surplus, Reading.owner, Reading.strategy] using htags
  · -- `@owner`
    have howner : Reading.owner ⟨"@owner", value, line⟩ = some (String.ofList (trim value)) :=
      if_pos ⟨rfl, hrefused⟩
    simp [Reading.Surplus, Reading.strategy, Directives.sorted, howner]
  · have hkeys : ∀ column ∈ splitColumns value, column ∈ (run rs).sorted.keys :=
      fun column hcolumn => mem_sortColumns.2 (mem_run_keys.2 ⟨_, hr, hcolumn⟩)
    simpa [Reading.Surplus, Reading.owner, Reading.strategy] using hkeys
  · have hnotNull : ∀ column ∈ splitColumns value, column ∈ (run rs).sorted.notNull :=
      fun column hcolumn => mem_sortColumns.2 (mem_run_notNull.2 ⟨_, hr, hcolumn⟩)
    simpa [Reading.Surplus, Reading.owner, Reading.strategy] using hnotNull
  · -- `@incremental`
    obtain ⟨strategy, hstrategy⟩ : ∃ strategy, strategyOf (trim value) = some strategy :=
      Option.ne_none_iff_exists'.1 hrefused
    have hspells := spells_iff (r := ⟨"@incremental", value, line⟩) rfl hstrategy
    have hsaid : Reading.strategy ⟨"@incremental", value, line⟩ = some strategy := hstrategy
    have hfirst : (run rs).sorted.materialization = some .incremental :=
      hmat _ (by simp [Reading.materialization, hstrategy])
    have hkeys : ∀ column ∈ Reading.keyColumns strategy, column ∈ (run rs).sorted.keys := by
      refine fun column hcolumn => mem_sortColumns.2 (mem_run_keys.2 ⟨_, hr, ?_⟩)
      simpa [Reading.keys, hstrategy] using hcolumn
    rw [← hspells, hsaid]
    constructor
    · rintro ⟨named, hnamed, hspelled, hread, -, -⟩
      cases hstrategy.symm.trans hnamed
      exact ⟨hspelled, by simp [Reading.owner], fun _ h => Option.some.inj h ▸ hread⟩
    · rintro ⟨hspelled, -, hread⟩
      exact ⟨strategy, hstrategy, hspelled, hread strategy rfl, hfirst, hkeys⟩
  · exact absurd (by simp only [Reading.Refused]) hrefused

/-! ## Directives that are accounted for -/

section Readings

variable {sql : List Char} {r : Reading}

theorem Reading.says_strategy {strategy : IncrementalStrategy} (h : r.strategy = some strategy) :
    r.materialization = some .incremental := by
  unfold Reading.strategy at h
  split at h
  · next hname => simp [Reading.materialization, hname, h]
  · cases h

theorem Reading.Surplus.says_materialization (h : r.Surplus) : ∃ m, r.materialization = some m := by
  unfold Reading.Surplus at h
  unfold Reading.materialization
  split at h <;> simp_all
  split at h <;> simp_all

theorem Reading.says_pinnedId (h : r.pinnedId.isSome) :
    r.owner = none ∧ r.materialization = none := by
  unfold Reading.pinnedId at h
  split at h
  · next hid => simp [Reading.owner, Reading.materialization, hid.1]
  · cases h

theorem Reading.refused_of_unknown (h : r.name ∉ knownNames) : r.Refused := by
  unfold Reading.Refused
  split <;> simp_all [knownNames]

/-- A directive is accounted for when its owner is the one that was read and, if it asks for the
first materialization, it has no other text and its strategy is the one that was read. -/
theorem heard_iff (hr : r ∈ readings sql) :
    (Contributes (parseDirectives sql) r ∨
        ∃ issue ∈ (parseDirectives sql).issues, issue.line = r.line) ↔
      (∀ owner ∈ r.owner, (run (readings sql)).owner = some owner) ∧
        ∀ m ∈ r.materialization, firstMaterialization sql = some m →
          ¬ r.Surplus ∧
            ∀ strategy ∈ r.strategy, (run (readings sql)).incremental = some strategy := by
  have hlines := nodup_line_readings sql
  have hcontributes := contributes_iff hr
  rw [parseDirectives_eq, firstMaterialization]
  generalize readings sql = rs at hr hlines hcontributes ⊢
  obtain ⟨before, after, rfl⟩ := List.append_of_mem hr
  have hreported := exists_issue_iff hlines
  have hflagged := flagged_run_iff before after (r := r)
  change (_ ∨ ∃ issue ∈ (run (before ++ r :: after)).issues, issue.line = r.line) ↔ _
  rw [hreported]
  by_cases h : Flagged (run before) r
  · refine iff_of_true (.inr h) ?_
    rcases hflagged.1 h with hrefused | ⟨hid, -⟩ | ⟨m, hm, hne⟩
    · obtain ⟨-, hmat, howner, -⟩ := hrefused.says_nothing
      simp [hmat, howner]
    · obtain ⟨howner, hmat⟩ := Reading.says_pinnedId hid
      simp [hmat, howner]
    · obtain ⟨-, -, howner, -⟩ := Reading.says_materialization hm
      refine ⟨by simp [howner], fun m' hm' hfirst => absurd hfirst ?_⟩
      rwa [Option.mem_unique hm' hm]
  · have hnot := mt hflagged.2 h
    rw [not_or, not_or] at hnot
    obtain ⟨hrefused, hid, hmat⟩ := hnot
    have hfirst : ∀ m ∈ r.materialization,
        (before ++ r :: after).findSome? Reading.materialization = some m := by
      intro m hm
      by_contra hne
      exact hmat ⟨m, hm, hne⟩
    rw [or_iff_left h, hcontributes hrefused ?_ fun m hm => ?_]
    · constructor
      · rintro ⟨hsurplus, howner, hstrategy⟩
        exact ⟨howner, fun _ _ _ => ⟨hsurplus, hstrategy⟩⟩
      · rintro ⟨howner, hwhole⟩
        refine ⟨fun hsurplus => ?_, howner, fun strategy hstrategy => ?_⟩
        · obtain ⟨m, hm⟩ := hsurplus.says_materialization
          exact (hwhole m hm (hfirst m hm)).1 hsurplus
        · have hm := Reading.says_strategy hstrategy
          exact (hwhole _ hm (hfirst _ hm)).2 strategy hstrategy
    · intro id hsaid
      -- no identity was declared before this one
      have hnone : before.findSome? Reading.pinnedId = none := by
        refine List.findSome?_eq_none_iff.2 fun q hq => ?_
        by_contra hdeclared
        refine hid ⟨?_, q, hq, Option.isSome_iff_ne_none.2 hdeclared⟩
        exact Option.isSome_iff_exists.2 ⟨id, hsaid⟩
      rw [run_pinnedId, List.findSome?_append, hnone, Option.none_or, List.findSome?_cons,
        show r.pinnedId = some id from hsaid]
    · rw [run_materialization]
      exact hfirst m hm

theorem Rearranged.reordered {lexis : Lexis} {other : List Char}
    (h : Rearranged lexis sql other) : Reordered (readings sql) (readings other) := by
  have hnames : ((readings other).map fun r => (r.name, r.value)).Perm
      ((readings sql).map fun r => (r.name, r.value)) := by
    rw [map_readings, map_readings]
    exact h.perm.filterMap parseLine
  have hperm := hnames.map fun read => (⟨read.1, read.2, 0⟩ : Reading)
  rw [List.map_map, List.map_map] at hperm
  exact hperm

end Readings

/-! ## The texts of which every directive is accounted for -/

theorem Accounted.regular {sql : List Char} (h : Accounted lexis sql) : Regular lexis sql := by
  have hunread : ∀ i line, (textLines sql)[i]? = some line →
      lexis.region (textLines sql) i ≠ lexis.code → parseLine line = none :=
    fun i line hline hregion => line_eq_self_iff.1 (h.silent i line hline hregion)
  have hheard : ∀ r ∈ readings sql,
      (∀ owner ∈ r.owner, (run (readings sql)).owner = some owner) ∧
        ∀ m ∈ r.materialization, firstMaterialization sql = some m →
          ¬ r.Surplus ∧
            ∀ strategy ∈ r.strategy, (run (readings sql)).incremental = some strategy := by
    intro r hr
    by_cases hknown : r.name ∈ knownNames
    · obtain ⟨i, line, hline, hread, hnumber⟩ := mem_readings.1 hr
      have hcode : lexis.region (textLines sql) i = lexis.code := by
        by_contra hregion
        rw [hunread i line hline hregion] at hread
        cases hread
      have hr' := h.heard i line r.name r.value hline hcode hread hknown
      rw [← hnumber] at hr'
      exact (heard_iff hr).1 hr'
    · obtain ⟨-, hmat, howner, -⟩ := (Reading.refused_of_unknown hknown).says_nothing
      simp [hmat, howner]
  refine ⟨hunread, ?_, fun r hr m hm hfirst => ((hheard r hr).2 m hm hfirst).1, fun hfirst => ?_⟩
  · intro a ha b hb x hx y hy
    exact Option.some.inj (((hheard a ha).1 x hx).symm.trans ((hheard b hb).1 y hy))
  · have hread : ∀ r ∈ readings sql, ∀ strategy ∈ r.strategy,
        (run (readings sql)).incremental = some strategy := fun r hr strategy hstrategy =>
      ((hheard r hr).2 _ (Reading.says_strategy hstrategy) hfirst).2 strategy hstrategy
    intro a ha b hb x hx y hy
    exact Option.some.inj ((hread a ha x hx).symm.trans (hread b hb y hy))

theorem Regular.accounted {sql : List Char} (h : Regular lexis sql) : Accounted lexis sql := by
  have hreverse : (readings sql).reverse ⊆ readings sql := fun r hr => List.mem_reverse.1 hr
  refine ⟨?_, fun i line hline hregion => line_eq_self_iff.2 (h.unread i line hline hregion), ?_⟩
  · intro i line name value hline _ hread _
    have hr : ⟨name, value, i + 1⟩ ∈ readings sql := mem_readings.2 ⟨i, line, hline, hread, rfl⟩
    refine (heard_iff hr).2 ⟨fun owner howner => ?_, fun m hm hfirst => ⟨?_, ?_⟩⟩
    · rw [run_owner]
      exact (h.owners.subset hreverse).findSome?_eq (List.mem_reverse.2 hr) howner
    · exact h.whole _ hr m hm hfirst
    · intro strategy hstrategy
      rw [Option.mem_unique hm (Reading.says_strategy hstrategy)] at hfirst
      rw [run_incremental]
      exact ((h.strategies hfirst).subset hreverse).findSome?_eq (List.mem_reverse.2 hr) hstrategy
  · intro hissues other hrearranged
    rw [parseDirectives_eq] at hissues
    have hcalm : Calm (readings sql) := (issues_eq_nil_iff _).1 hissues
    have hstrategies : Agree Reading.strategy (readings sql) := by
      intro a ha b hb x hx y hy
      -- a strategy asks for the materialization of strategies, which is then the first one
      have hfirst := hcalm.materialization.findSome?_eq ha (Reading.says_strategy hx)
      exact h.strategies hfirst a ha b hb x hx y hy
    rw [parseDirectives_eq, parseDirectives_eq]
    exact run_reordered hcalm h.owners hstrategies hrearranged.reordered

/-- Every directive of a text is accounted for, and nothing else is read, exactly when no line of a
string, of a quoted name or of a comment looks like a directive, one owner is named, the directives
that ask for the first materialization have no other text, and the strategies agree where the first
materialization is that of a strategy. -/
theorem accounted_iff (lexis : Lexis) (sql : List Char) : Accounted lexis sql ↔ Regular lexis sql :=
  ⟨Accounted.regular, Regular.accounted⟩

/-! ## Directives that are lost -/

namespace Sample

def twoOwners : List Char :=
  "-- @owner ops\n-- @owner data\nselect 1".toList

def twoColumns : List Char :=
  "-- @incremental window=day, hour\nselect 1".toList

def inString : List Char :=
  "select '\n-- @ephemeral\n'".toList

theorem not_accounted_samples :
    ¬ Accounted .standard twoOwners ∧ ¬ Accounted .standard twoColumns ∧
      ¬ Accounted .standard inString := by
  refine ⟨fun h => ?_, fun h => ?_, fun h => ?_⟩
  · have hissues : (parseDirectives twoOwners).issues = [] := by decide +kernel
    have howner : (parseDirectives twoOwners).owner = some "data" := by decide +kernel
    rcases h.heard 0 "-- @owner ops".toList "@owner" "ops".toList (by decide +kernel) rfl
        (by decide +kernel) (by decide) with hsaid | ⟨issue, hissue, -⟩
    · have hops : (parseDirectives twoOwners).owner = some "ops" := hsaid
      exact absurd (howner.symm.trans hops) (by decide)
    · rw [hissues] at hissue
      cases hissue
  · have hissues : (parseDirectives twoColumns).issues = [] := by decide +kernel
    have hcolumns : (parseDirectives twoColumns).incremental = some (.timeWindow "day" none) := by
      decide +kernel
    rcases h.heard 0 "-- @incremental window=day, hour".toList "@incremental"
        "window=day, hour".toList (by decide +kernel) rfl (by decide +kernel) (by decide) with
      ⟨strategy, -, hspells, hread, -⟩ | ⟨issue, hissue, -⟩
    · cases hcolumns.symm.trans hread
      exact absurd hspells.1 (by decide +kernel)
    · rw [hissues] at hissue
      cases hissue
  · have hregion : ((textLines inString).take 1).foldl LexicalRegion.scan .code ≠ .code := by
      decide +kernel
    have hsilent := h.silent 1 "-- @ephemeral".toList (by decide +kernel) hregion .empty
    exact absurd hsilent (by decide +kernel)

end Sample

end PhloTransform.Sql
