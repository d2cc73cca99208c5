import PhloTransform.Library.FoldedFields
import PhloTransform.Sql.Directives
import Mathlib.Data.List.Count
import Mathlib.Data.List.Infix

/-!
# What a run of directives says

Ten kinds of directives write overlapping fields.  Each field keeps the first value, takes the last
one or collects all of them, and an issue is reported where a directive is refused, where an
identity is declared again and where a materialization differs from the first one.

Main results:

- Theorem `apply_reads`: what one directive does to every field.
- Theorem `parseDirectives_eq`: the directives of a text are read one after the other.
-/

namespace PhloTransform.Sql

open Core (IncrementalStrategy Materialization sortColumns trim)
open Library (Agree Collects KeepsFirst TakesLast agree_map foldl_keepsFirst foldl_takesLast
  mem_foldl_collects textLines)

variable {column : String}

/-! ## Directives of a text -/

/-- A directive of a text: its name, its value and the number of its line. -/
structure Reading where
  name : String
  value : List Char
  line : Nat
deriving Repr, DecidableEq

def readings (sql : List Char) : List Reading :=
  (textLines sql).zipIdx.filterMap fun line =>
    (parseLine line.1).map fun read => ⟨read.1, read.2, line.2 + 1⟩

theorem mem_readings {sql : List Char} {r : Reading} :
    r ∈ readings sql ↔ ∃ i line, (textLines sql)[i]? = some line ∧
      parseLine line = some (r.name, r.value) ∧ r.line = i + 1 := by
  simp only [readings, List.mem_filterMap, Prod.exists, List.mem_zipIdx_iff_getElem?,
    Option.map_eq_some_iff]
  constructor
  · rintro ⟨line, i, hline, name, value, hread, rfl⟩
    exact ⟨i, line, hline, hread, rfl⟩
  · rintro ⟨i, line, hline, hread, hnumber⟩
    exact ⟨line, i, hline, r.name, r.value, hread, by rw [← hnumber]⟩

theorem nodup_line_readings (sql : List Char) :
    (readings sql).Pairwise fun r s => r.line ≠ s.line := by
  have hnodup : (textLines sql).zipIdx.Pairwise fun a b => a.2 ≠ b.2 := by
    rw [← List.pairwise_map (f := Prod.snd) (R := (· ≠ ·)), List.zipIdx_map_snd]
    exact List.nodup_range' 1
  refine hnodup.filterMap _ fun a b hab r hr s hs => ?_
  obtain ⟨_, _, rfl⟩ := Option.map_eq_some_iff.1 hr
  obtain ⟨_, _, rfl⟩ := Option.map_eq_some_iff.1 hs
  simpa using hab

theorem map_readings (sql : List Char) :
    (readings sql).map (fun r => (r.name, r.value)) = (textLines sql).filterMap parseLine := by
  have hlines : (textLines sql).filterMap parseLine =
      (textLines sql).zipIdx.filterMap fun line => parseLine line.1 := by
    conv_lhs => rw [← List.zipIdx_map_fst 0 (textLines sql), List.filterMap_map]
    rfl
  rw [hlines, readings, List.map_filterMap]
  congr 1
  funext line
  cases parseLine line.1 <;> rfl

/-! ## Fields of a directive -/

namespace Reading

variable (r : Reading)

/-- The identity that a directive declares. -/
def pinnedId : Option String :=
  if r.name = "@id" ∧ trim r.value ≠ [] then some (String.ofList (trim r.value)) else none

/-- The strategy that a directive declares. -/
def strategy : Option IncrementalStrategy :=
  if r.name = "@incremental" then strategyOf (trim r.value) else none

/-- The materialization that a directive asks for. -/
def materialization : Option Materialization :=
  match r.name with
  | "@view" => some .view
  | "@table" => some .table
  | "@ephemeral" => some .ephemeral
  | "@materialized" => parseMaterialization r.value
  | "@incremental" => (strategyOf (trim r.value)).map fun _ => .incremental
  | _ => none

def owner : Option String :=
  if r.name = "@owner" ∧ trim r.value ≠ [] then some (String.ofList (trim r.value)) else none

def tags : List String :=
  if r.name = "@tags" then splitTags r.value else []

/-- The columns that a strategy takes for the identity. -/
def keyColumns : IncrementalStrategy → List String
  | .key columns => columns
  | _ => []

def keys : List String :=
  match r.name with
  | "@key" => splitColumns r.value
  | "@incremental" => ((strategyOf (trim r.value)).map keyColumns).getD []
  | _ => []

def notNull : List String :=
  if r.name = "@not-null" then splitColumns r.value else []

/-- A directive that says nothing: its name is unknown or its value is not understood. -/
def Refused : Prop :=
  match r.name with
  | "@id" | "@owner" => trim r.value = []
  | "@view" | "@table" | "@ephemeral" => False
  | "@materialized" => parseMaterialization r.value = none
  | "@tags" => splitTags r.value = []
  | "@key" | "@not-null" => splitColumns r.value = []
  | "@incremental" => strategyOf (trim r.value) = none
  | _ => True

end Reading

/-! ## Reading a directive -/

def Directives.read (d : Directives) (r : Reading) : Directives :=
  d.apply r.name r.line r.value

def Flagged (d : Directives) (r : Reading) : Prop :=
  r.Refused ∨ (r.pinnedId.isSome ∧ d.pinnedId.isSome) ∨
    ∃ m ∈ r.materialization, ∃ first ∈ d.materialization, first ≠ m

/-- What a directive does to the directives before it. -/
structure Reads (d d' : Directives) (r : Reading) : Prop where
  pinnedId : d'.pinnedId = d.pinnedId.or r.pinnedId
  materialization : d'.materialization = d.materialization.or r.materialization
  owner : d'.owner = r.owner.or d.owner
  incremental : d'.incremental = r.strategy.or d.incremental
  tags : ∀ tag, tag ∈ d'.tags ↔ tag ∈ d.tags ∨ tag ∈ r.tags
  keys : ∀ column, column ∈ d'.keys ↔ column ∈ d.keys ∨ column ∈ r.keys
  notNull : ∀ column, column ∈ d'.notNull ↔ column ∈ d.notNull ∨ column ∈ r.notNull
  issues : d'.issues = d.issues ∧ ¬ Flagged d r ∨
    (∃ kind, d'.issues = d.issues ++ [⟨kind, r.name, r.line⟩]) ∧ Flagged d r

theorem parseMaterialization_nil {value : List Char} (h : trim value = []) :
    parseMaterialization value = none := by
  rw [parseMaterialization, h]
  decide

theorem strategyOf_nil : strategyOf [] = none := by
  decide

/-- What `set_materialization` does: the first materialization is kept, and one that differs from it
is reported. -/
theorem setMaterialization_cases (d : Directives) (name : String) (line : Nat)
    (m : Materialization) :
    ∃ issues, d.setMaterialization name line m =
        { d with materialization := d.materialization.or (some m), issues := issues } ∧
      (issues = d.issues ∧ (¬ ∃ first ∈ d.materialization, first ≠ m) ∨
        (∃ kind, issues = d.issues ++ [⟨kind, name, line⟩]) ∧
          ∃ first ∈ d.materialization, first ≠ m) := by
  unfold Directives.setMaterialization
  split
  · next first hfirst =>
      split
      · next hne =>
          refine ⟨_, ?_, .inr ⟨⟨.conflictingMaterialization, rfl⟩, first, hfirst, hne⟩⟩
          simp [Directives.issue, hfirst]
      · next heq =>
          refine ⟨d.issues, ?_, .inl ⟨rfl, by simpa [hfirst] using heq⟩⟩
          rw [hfirst, Option.some_or, ← hfirst]
  · next hfirst => exact ⟨d.issues, by simp [hfirst], .inl ⟨rfl, by simp [hfirst]⟩⟩

/-! ## One step -/

section Steps

variable {d : Directives} {r : Reading}
variable {m : Materialization}

theorem Reading.Refused.says_nothing (h : r.Refused) :
    r.pinnedId = none ∧ r.materialization = none ∧ r.owner = none ∧ r.strategy = none ∧
      r.tags = [] ∧ r.keys = [] ∧ r.notNull = [] := by
  unfold Reading.Refused at h
  split at h <;>
    simp_all [Reading.pinnedId, Reading.materialization, Reading.owner, Reading.strategy,
      Reading.tags, Reading.keys, Reading.notNull]

theorem reads_issue (kind : DirectiveIssueKind) (h : r.Refused) :
    Reads d (d.issue r.name r.line kind) r := by
  obtain ⟨hid, hmat, howner, hstrategy, htags, hkeys, hnotNull⟩ := h.says_nothing
  constructor
  case issues => exact .inr ⟨⟨kind, rfl⟩, .inl h⟩
  all_goals simp [Directives.issue, *]

theorem Reading.says_materialization (h : r.materialization = some m) :
    ¬ r.Refused ∧ r.pinnedId = none ∧ r.owner = none ∧ r.tags = [] ∧ r.notNull = [] := by
  unfold Reading.materialization at h
  split at h <;>
    simp_all [Reading.Refused, Reading.pinnedId, Reading.owner, Reading.tags, Reading.notNull,
      Option.ne_none_iff_exists']

theorem flagged_iff_of_materialization (h : r.materialization = some m) :
    Flagged d r ↔ ∃ first ∈ d.materialization, first ≠ m := by
  obtain ⟨hrefused, hid, -⟩ := Reading.says_materialization h
  simp [Flagged, hrefused, hid, h]

theorem reads_setMaterialization (h : r.materialization = some m) (keys : List String)
    (hkeys : ∀ column, column ∈ keys ↔ column ∈ d.keys ∨ column ∈ r.keys) :
    Reads d (({ d with keys := keys
                       incremental := r.strategy.or d.incremental }).setMaterialization
      r.name r.line m) r := by
  obtain ⟨-, hid, howner, htags, hnotNull⟩ := Reading.says_materialization h
  obtain ⟨issues, heq, hissues⟩ := setMaterialization_cases
    { d with keys := keys, incremental := r.strategy.or d.incremental } r.name r.line m
  rw [heq]
  constructor
  case issues => rwa [flagged_iff_of_materialization h]
  case keys => exact hkeys
  all_goals simp [hid, howner, htags, hnotNull, h]

theorem reads_setMaterialization_alone (h : r.materialization = some m)
    (hstrategy : r.strategy = none) (hkeys : r.keys = []) :
    Reads d (d.setMaterialization r.name r.line m) r := by
  have hreads := reads_setMaterialization (d := d) h d.keys (by simp [hkeys])
  rwa [hstrategy, Option.none_or] at hreads

theorem not_flagged (hrefused : ¬ r.Refused) (hid : r.pinnedId = none)
    (hmat : r.materialization = none) : ¬ Flagged d r := by
  simp [Flagged, hrefused, hid, hmat]

theorem parseId_reads (d : Directives) (value : List Char) (line : Nat) :
    Reads d (d.parseId "@id" line value) ⟨"@id", value, line⟩ := by
  unfold Directives.parseId
  split
  · next hblank => exact reads_issue (r := ⟨"@id", value, line⟩) _ hblank
  · next hne =>
      have hid : Reading.pinnedId ⟨"@id", value, line⟩ = some (String.ofList (trim value)) := by
        simp [Reading.pinnedId, hne]
      split
      · next hdeclared =>
          -- an identity that was declared stays
          obtain ⟨declared, hdeclared'⟩ := Option.isSome_iff_exists.1 hdeclared
          constructor
          case issues => exact .inr ⟨⟨_, rfl⟩, .inr (.inl ⟨by rw [hid]; rfl, hdeclared⟩)⟩
          all_goals simp [Directives.issue, hdeclared', Reading.materialization, Reading.owner,
            Reading.strategy, Reading.tags, Reading.keys, Reading.notNull]
      · next hfresh =>
          have hnone : d.pinnedId = none := by simpa using hfresh
          constructor
          case issues =>
            refine .inl ⟨rfl, ?_⟩
            simp [Flagged, Reading.Refused, hne, hnone, Reading.materialization]
          all_goals simp [hnone, hid, Reading.materialization, Reading.owner,
            Reading.strategy, Reading.tags, Reading.keys, Reading.notNull]

theorem parseIncremental_reads (d : Directives) (value : List Char) (line : Nat) :
    Reads d (d.parseIncremental "@incremental" line value) ⟨"@incremental", value, line⟩ := by
  unfold Directives.parseIncremental
  split
  · next hblank =>
      refine reads_issue (r := ⟨"@incremental", value, line⟩) _ ?_
      exact (congrArg strategyOf hblank).trans strategyOf_nil
  · split
    · next strategy hstrategy =>
        have hsaid : Reading.strategy ⟨"@incremental", value, line⟩ = some strategy := by
          simp [Reading.strategy, hstrategy]
        have hmat : Reading.materialization ⟨"@incremental", value, line⟩ = some .incremental := by
          simp [Reading.materialization, hstrategy]
        cases strategy with
        | key columns =>
          have hreads := reads_setMaterialization (d := d) hmat
            (sortColumns (d.keys ++ columns))
            (by simp [mem_sortColumns, Reading.keys, hstrategy, Reading.keyColumns])
          rwa [hsaid] at hreads
        | append | partition _ | timeWindow _ _ =>
          have hreads := reads_setMaterialization (d := d) hmat d.keys
            (by simp [Reading.keys, hstrategy, Reading.keyColumns])
          rwa [hsaid] at hreads
    · next hnone => exact reads_issue (r := ⟨"@incremental", value, line⟩) _ hnone

theorem apply_reads (d : Directives) (r : Reading) : Reads d (d.read r) r := by
  obtain ⟨name, value, line⟩ := r
  change Reads d (d.apply name line value) _
  unfold Directives.apply
  split
  · exact parseId_reads d value line
  · exact reads_setMaterialization_alone (r := ⟨"@view", value, line⟩) rfl rfl rfl
  · exact reads_setMaterialization_alone (r := ⟨"@table", value, line⟩) rfl rfl rfl
  · exact reads_setMaterialization_alone (r := ⟨"@ephemeral", value, line⟩) rfl rfl rfl
  · split
    · next hblank =>
        exact reads_issue (r := ⟨"@materialized", value, line⟩) _ (parseMaterialization_nil hblank)
    · split
      · next m hm =>
          exact reads_setMaterialization_alone (r := ⟨"@materialized", value, line⟩) hm rfl rfl
      · next hnone => exact reads_issue (r := ⟨"@materialized", value, line⟩) _ hnone
  · split
    · next hblank => exact reads_issue (r := ⟨"@tags", value, line⟩) _ hblank
    · next hne =>
        constructor
        case issues => exact .inl ⟨rfl, not_flagged hne rfl rfl⟩
        all_goals simp [Reading.pinnedId, Reading.materialization, Reading.owner, Reading.strategy,
          Reading.tags, Reading.keys, Reading.notNull]
  · split
    · next hblank => exact reads_issue (r := ⟨"@owner", value, line⟩) _ hblank
    · next hne =>
        constructor
        case issues => exact .inl ⟨rfl, not_flagged hne rfl rfl⟩
        all_goals simp [Reading.pinnedId, Reading.materialization, Reading.owner, Reading.strategy,
          Reading.tags, Reading.keys, Reading.notNull, hne]
  · split
    · next hblank => exact reads_issue (r := ⟨"@key", value, line⟩) _ hblank
    · next hne =>
        constructor
        case issues => exact .inl ⟨rfl, not_flagged hne rfl rfl⟩
        all_goals simp [Reading.pinnedId, Reading.materialization, Reading.owner, Reading.strategy,
          Reading.tags, Reading.keys, Reading.notNull]
  · split
    · next hblank => exact reads_issue (r := ⟨"@not-null", value, line⟩) _ hblank
    · next hne =>
        constructor
        case issues => exact .inl ⟨rfl, not_flagged hne rfl rfl⟩
        all_goals simp [Reading.pinnedId, Reading.materialization, Reading.owner, Reading.strategy,
          Reading.tags, Reading.keys, Reading.notNull]
  · exact parseIncremental_reads d value line
  · refine reads_issue (r := ⟨name, value, line⟩) _ ?_
    simp only [Reading.Refused]

end Steps

/-! ## Runs -/

def run (rs : List Reading) : Directives :=
  rs.foldl Directives.read .empty

/-- The directives of a text are read one after the other. -/
theorem parseDirectives_eq (sql : List Char) :
    parseDirectives sql = (run (readings sql)).sorted := by
  rw [parseDirectives, run, readings, List.foldl_filterMap]
  congr 2
  funext d line
  rw [Directives.line]
  cases parseLine line.1 <;> rfl

variable {rs : List Reading}

theorem run_concat (rs : List Reading) (r : Reading) : run (rs ++ [r]) = (run rs).read r := by
  rw [run, List.foldl_concat, ← run]

theorem run_pinnedId (rs : List Reading) : (run rs).pinnedId = rs.findSome? Reading.pinnedId := by
  have hkeeps : KeepsFirst Directives.read Directives.pinnedId Reading.pinnedId :=
    fun d r => (apply_reads d r).pinnedId
  rw [run, foldl_keepsFirst hkeeps]
  rfl

theorem run_materialization (rs : List Reading) :
    (run rs).materialization = rs.findSome? Reading.materialization := by
  have hkeeps : KeepsFirst Directives.read Directives.materialization Reading.materialization :=
    fun d r => (apply_reads d r).materialization
  rw [run, foldl_keepsFirst hkeeps]
  rfl

theorem run_owner (rs : List Reading) : (run rs).owner = rs.reverse.findSome? Reading.owner := by
  have htakes : TakesLast Directives.read Directives.owner Reading.owner :=
    fun d r => (apply_reads d r).owner
  rw [run, foldl_takesLast htakes]
  exact Option.or_none

theorem run_incremental (rs : List Reading) :
    (run rs).incremental = rs.reverse.findSome? Reading.strategy := by
  have htakes : TakesLast Directives.read Directives.incremental Reading.strategy :=
    fun d r => (apply_reads d r).incremental
  rw [run, foldl_takesLast htakes]
  exact Option.or_none

theorem mem_run_tags {tag : String} : tag ∈ (run rs).tags ↔ ∃ r ∈ rs, tag ∈ r.tags := by
  have hcollects : Collects Directives.read Directives.tags Reading.tags :=
    fun d r => (apply_reads d r).tags
  rw [run, mem_foldl_collects hcollects]
  simp [Directives.empty]

theorem mem_run_keys : column ∈ (run rs).keys ↔ ∃ r ∈ rs, column ∈ r.keys := by
  have hcollects : Collects Directives.read Directives.keys Reading.keys :=
    fun d r => (apply_reads d r).keys
  rw [run, mem_foldl_collects hcollects]
  simp [Directives.empty]

theorem mem_run_notNull : column ∈ (run rs).notNull ↔ ∃ r ∈ rs, column ∈ r.notNull := by
  have hcollects : Collects Directives.read Directives.notNull Reading.notNull :=
    fun d r => (apply_reads d r).notNull
  rw [run, mem_foldl_collects hcollects]
  simp [Directives.empty]

/-! ## Issues of a run -/

theorem mem_foldl_issues {rs : List Reading} {d : Directives} {issue : DirectiveIssue}
    (h : issue ∈ (rs.foldl Directives.read d).issues) :
    issue ∈ d.issues ∨ ∃ r ∈ rs, r.line = issue.line := by
  induction rs generalizing d with
  | nil => exact .inl h
  | cons r rs ih =>
    rcases ih h with h | ⟨s, hs, hline⟩
    · rcases (apply_reads d r).issues with ⟨heq, -⟩ | ⟨⟨kind, heq⟩, -⟩
      · exact .inl (heq ▸ h)
      · rw [heq, List.mem_append, List.mem_singleton] at h
        rcases h with h | rfl
        · exact .inl h
        · exact .inr ⟨r, List.mem_cons_self, rfl⟩
    · exact .inr ⟨s, List.mem_cons_of_mem _ hs, hline⟩

theorem issues_prefix_foldl (rs : List Reading) (d : Directives) :
    d.issues <+: (rs.foldl Directives.read d).issues := by
  induction rs generalizing d with
  | nil => exact List.prefix_rfl
  | cons r rs ih =>
    refine List.IsPrefix.trans ?_ (ih (d.read r))
    rcases (apply_reads d r).issues with ⟨heq, -⟩ | ⟨⟨kind, heq⟩, -⟩
    · exact heq ▸ List.prefix_rfl
    · exact heq ▸ List.prefix_append _ _

/-- A directive is reported exactly when it is flagged by the directives before it. -/
theorem exists_issue_iff {before after : List Reading} {r : Reading}
    (hlines : (before ++ r :: after).Pairwise fun a b => a.line ≠ b.line) :
    (∃ issue ∈ (run (before ++ r :: after)).issues, issue.line = r.line) ↔
      Flagged (run before) r := by
  obtain ⟨-, hafter, hbefore⟩ := List.pairwise_append.1 hlines
  have hrun : run (before ++ r :: after) = after.foldl Directives.read ((run before).read r) := by
    rw [run, List.foldl_append, ← run, List.foldl_cons]
  rw [hrun]
  constructor
  · rintro ⟨issue, hissue, hline⟩
    rcases mem_foldl_issues hissue with hissue | ⟨s, hs, hs'⟩
    · rcases (apply_reads (run before) r).issues with ⟨heq, -⟩ | ⟨-, hflagged⟩
      · -- the issues before it are on other lines
        rw [heq] at hissue
        rcases mem_foldl_issues hissue with hnil | ⟨s, hs, hs'⟩
        · cases hnil
        · exact absurd (hs'.trans hline) (hbefore s hs r List.mem_cons_self)
      · exact hflagged
    · exact absurd (hs'.trans hline).symm ((List.pairwise_cons.1 hafter).1 s hs)
  · intro hflagged
    rcases (apply_reads (run before) r).issues with ⟨-, hnot⟩ | ⟨⟨kind, heq⟩, -⟩
    · exact absurd hflagged hnot
    · refine ⟨⟨kind, r.name, r.line⟩, (issues_prefix_foldl after _).subset ?_, rfl⟩
      rw [heq]
      exact List.mem_append_right _ (List.mem_singleton_self _)

/-- A directive is reported when it is refused, when an identity was declared before it, and when
its materialization is not the first one. -/
theorem flagged_run_iff (before after : List Reading) {r : Reading} :
    Flagged (run before) r ↔ r.Refused ∨
      (r.pinnedId.isSome ∧ ∃ q ∈ before, q.pinnedId.isSome) ∨
        ∃ m ∈ r.materialization,
          (before ++ r :: after).findSome? Reading.materialization ≠ some m := by
  rw [Flagged, run_pinnedId, run_materialization, List.findSome?_isSome_iff]
  refine or_congr_right (or_congr_right (exists_congr fun m => and_congr_right fun hm => ?_))
  have hm' : r.materialization = some m := hm
  rw [List.findSome?_append, List.findSome?_cons, hm']
  cases before.findSome? Reading.materialization <;> simp

/-! ## Runs without issues -/

/-- Directives of which none is reported: each of them says something, at most one declares an
identity, and those that ask for a materialization ask for the same one. -/
structure Calm (rs : List Reading) : Prop where
  understood : ∀ r ∈ rs, ¬ r.Refused
  identity : (rs.filterMap Reading.pinnedId).length ≤ 1
  materialization : Agree Reading.materialization rs

theorem calm_concat_iff {r : Reading} : Calm (rs ++ [r]) ↔ Calm rs ∧ ¬ Flagged (run rs) r := by
  have hflagged := flagged_run_iff rs [] (r := r)
  rw [hflagged, not_or, not_or]
  constructor
  · intro h
    have hsub : rs ⊆ rs ++ [r] := List.subset_append_left _ _
    have hr : r ∈ rs ++ [r] := List.mem_append_right _ (List.mem_singleton_self r)
    have hlength := h.identity
    rw [List.filterMap_append, List.length_append] at hlength
    refine ⟨⟨fun s hs => h.understood s (hsub hs), by omega, h.materialization.subset hsub⟩,
      h.understood r hr, ?_, ?_⟩
    · rintro ⟨hid, q, hq, hdeclared⟩
      obtain ⟨name, hname⟩ := Option.isSome_iff_exists.1 hid
      obtain ⟨declared, hdeclared⟩ := Option.isSome_iff_exists.1 hdeclared
      have hone : 0 < (rs.filterMap Reading.pinnedId).length :=
        List.length_pos_of_mem (List.mem_filterMap.2 ⟨q, hq, hdeclared⟩)
      have htwo : ([r].filterMap Reading.pinnedId).length = 1 := by
        rw [List.filterMap_cons_some hname]
        rfl
      omega
    · rintro ⟨m, hm, hne⟩
      exact hne (h.materialization.findSome?_eq hr hm)
  · rintro ⟨h, hunderstood, hidentity, hmaterialization⟩
    refine ⟨fun s hs => ?_, ?_, ?_⟩
    · rcases List.mem_append.1 hs with hs | hs
      · exact h.understood s hs
      · exact List.mem_singleton.1 hs ▸ hunderstood
    · rw [List.filterMap_append, List.length_append]
      cases hid : r.pinnedId with
      | none =>
        rw [List.filterMap_cons_none hid]
        exact h.identity
      | some name =>
        have hnone : rs.filterMap Reading.pinnedId = [] := by
          refine List.filterMap_eq_nil_iff.2 fun q hq => ?_
          by_contra hdeclared
          exact hidentity ⟨by rw [hid]; rfl, q, hq, Option.isSome_iff_ne_none.2 hdeclared⟩
        rw [hnone, List.filterMap_cons_some hid]
        exact le_rfl
    · have hfirst : ∀ s ∈ rs ++ [r], ∀ m ∈ s.materialization,
          (rs ++ [r]).findSome? Reading.materialization = some m := by
        intro s hs m hm
        rcases List.mem_append.1 hs with hs | hs
        · rw [List.findSome?_append, h.materialization.findSome?_eq hs hm]
          rfl
        · rw [List.mem_singleton.1 hs] at hm
          by_contra hne
          exact hmaterialization ⟨m, hm, hne⟩
      intro a ha b hb x hx y hy
      exact Option.some.inj ((hfirst a ha x hx).symm.trans (hfirst b hb y hy))

/-- Nothing is reported of a text exactly when its directives are calm. -/
theorem issues_eq_nil_iff (rs : List Reading) : (run rs).issues = [] ↔ Calm rs := by
  induction rs using List.reverseRecOn with
  | nil =>
    refine iff_of_true rfl ⟨by simp, by simp, ?_⟩
    rintro a ⟨⟩
  | append_singleton rs r ih =>
    rw [calm_concat_iff, ← ih, run_concat]
    rcases (apply_reads (run rs) r).issues with ⟨heq, hnot⟩ | ⟨⟨kind, heq⟩, hflagged⟩
    · simp [heq, hnot]
    · simp [heq, hflagged]

/-! ## The order of directives -/

/-- A directive without the number of its line. -/
def Reading.unnumbered (r : Reading) : Reading :=
  { r with line := 0 }

/-- The same directives, in another order and on other lines. -/
def Reordered (rs ss : List Reading) : Prop :=
  (ss.map Reading.unnumbered).Perm (rs.map Reading.unnumbered)

section Reordering

variable {ss : List Reading} {β : Type*}
variable {f : Reading → Option β}

theorem Reordered.exists_mem (h : Reordered rs ss) {s : Reading} (hs : s ∈ ss) :
    ∃ r ∈ rs, r.unnumbered = s.unnumbered :=
  List.mem_map.1 (h.mem_iff.1 (List.mem_map_of_mem hs))

theorem Reordered.symm (h : Reordered rs ss) : Reordered ss rs :=
  List.Perm.symm h

theorem Reordered.exists_iff (h : Reordered rs ss) {p : Reading → Prop}
    (hp : ∀ r, p r.unnumbered ↔ p r) : (∃ s ∈ ss, p s) ↔ ∃ r ∈ rs, p r := by
  constructor
  · rintro ⟨s, hs, hps⟩
    obtain ⟨r, hr, heq⟩ := h.exists_mem hs
    exact ⟨r, hr, (hp r).1 (heq ▸ (hp s).2 hps)⟩
  · rintro ⟨r, hr, hpr⟩
    obtain ⟨s, hs, heq⟩ := h.symm.exists_mem hr
    exact ⟨s, hs, (hp s).1 (heq ▸ (hp r).2 hpr)⟩

theorem Reordered.filterMap_perm (h : Reordered rs ss) (hf : ∀ r, f r.unnumbered = f r) :
    (ss.filterMap f).Perm (rs.filterMap f) := by
  have hperm := List.Perm.filterMap f h
  simpa only [List.filterMap_map, Function.comp_def, hf] using hperm

theorem Reordered.agree (h : Reordered rs ss) (hf : ∀ r, f r.unnumbered = f r) (hagree : Agree f rs)
    : Agree f ss := by
  have hcomp : f ∘ Reading.unnumbered = f := funext hf
  rw [← hcomp, ← agree_map] at hagree ⊢
  exact hagree.subset (List.Perm.subset h)

theorem Reordered.findSome?_eq (h : Reordered rs ss) (hf : ∀ r, f r.unnumbered = f r)
    (hagree : Agree f rs) : ss.findSome? f = rs.findSome? f := by
  have hcomp : f ∘ Reading.unnumbered = f := funext hf
  rw [← hcomp, ← List.findSome?_map, ← List.findSome?_map]
  rw [← hcomp, ← agree_map] at hagree
  exact hagree.findSome?_perm h

theorem Calm.agree_pinnedId (h : Calm rs) : Agree Reading.pinnedId rs := by
  intro a ha b hb x hx y hy
  have hmemx : x ∈ rs.filterMap Reading.pinnedId := List.mem_filterMap.2 ⟨a, ha, hx⟩
  have hmemy : y ∈ rs.filterMap Reading.pinnedId := List.mem_filterMap.2 ⟨b, hb, hy⟩
  have hone : (rs.filterMap Reading.pinnedId).length = 1 :=
    le_antisymm h.identity (List.length_pos_of_mem hmemx)
  obtain ⟨name, hname⟩ := List.length_eq_one_iff.1 hone
  rw [hname, List.mem_singleton] at hmemx hmemy
  rw [hmemx, hmemy]

theorem Calm.reordered (hcalm : Calm rs) (h : Reordered rs ss) : Calm ss where
  understood s hs := by
    obtain ⟨r, hr, heq⟩ := h.exists_mem hs
    have hunderstood : ¬ r.unnumbered.Refused := hcalm.understood r hr
    rwa [heq] at hunderstood
  identity := by
    rw [(h.filterMap_perm fun r => rfl).length_eq]
    exact hcalm.identity
  materialization := h.agree (fun r => rfl) hcalm.materialization

/-- Directives of which nothing is reported, and that agree on the owner and on the strategy, say
the same in every order. -/
theorem run_reordered (hcalm : Calm rs) (howner : Agree Reading.owner rs)
    (hstrategy : Agree Reading.strategy rs) (h : Reordered rs ss) :
    (run ss).sorted = (run rs).sorted := by
  have hlast : Reordered rs.reverse ss.reverse := by
    unfold Reordered
    simpa only [List.map_reverse] using
      ((List.reverse_perm _).trans h).trans (List.reverse_perm _).symm
  have hissues : (run ss).issues = (run rs).issues := by
    rw [(issues_eq_nil_iff rs).2 hcalm, (issues_eq_nil_iff ss).2 (hcalm.reordered h)]
  have hsubset : rs.reverse ⊆ rs := fun r hr => List.mem_reverse.1 hr
  simp only [Directives.sorted, Directives.mk.injEq]
  refine ⟨?_, ?_, ?_, ?_, ?_, ?_, ?_, hissues⟩
  · rw [run_pinnedId, run_pinnedId, h.findSome?_eq (fun r => rfl) hcalm.agree_pinnedId]
  · rw [run_materialization, run_materialization,
      h.findSome?_eq (fun r => rfl) hcalm.materialization]
  · refine sortColumns_congr fun tag => ?_
    rw [mem_run_tags, mem_run_tags, h.exists_iff fun r => Iff.rfl]
  · rw [run_owner, run_owner, hlast.findSome?_eq (fun r => rfl) (howner.subset hsubset)]
  · refine sortColumns_congr fun column => ?_
    rw [mem_run_keys, mem_run_keys, h.exists_iff fun r => Iff.rfl]
  · refine sortColumns_congr fun column => ?_
    rw [mem_run_notNull, mem_run_notNull, h.exists_iff fun r => Iff.rfl]
  · rw [run_incremental, run_incremental,
      hlast.findSome?_eq (fun r => rfl) (hstrategy.subset hsubset)]

end Reordering

end PhloTransform.Sql
