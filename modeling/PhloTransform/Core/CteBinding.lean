import PhloTransform.Core.Resolve
import PhloTransform.Core.SourceReference

/-!
# What a table reference is bound to

The analyzer takes the columns of a table reference from a common table expression or
from a resolved relation; the rewriter leaves the reference to a common table expression
alone and puts a physical relation in the place of a resolved one.  The rewriter keeps a
stack of WITH clauses.  The analyzer keeps one map of the common table expressions it has
passed, by lower-case name, and never takes an entry out.

Main results:

- Theorem `Analyzer.origins_eq`: the analyzer binds a simple name to the last common table
  expression of that name, up to case, that ends before it.
- Theorem `RelationRewriter.rewrite_eq`: the rewriter looks at the WITH clauses around.
-/

namespace PhloTransform.Core

open Sql

/-! ## The analyzer -/

/-- What the columns of a table reference are taken from. -/
inductive Origin where
  | cte (name : CteName)
  | model (id : ModelId)
  | source (source : SourceId)
  | nothing
deriving DecidableEq

/-- The common table expressions by lower-case name. -/
abbrev CteEnv := String → Option CteName

namespace CteEnv

def empty : CteEnv := fun _ => none

def insert (ctes : CteEnv) (key : String) (name : CteName) : CteEnv :=
  fun other => if other = key then some name else ctes other

end CteEnv

/-- The environment, and the origins of the references passed so far. -/
structure AnalyzeState where
  ctes : CteEnv
  origins : List Origin

/-- An analyzer of one model.  `lower` is `str::to_lowercase`. -/
structure Analyzer where
  lower : String → String
  resolver : Resolver
  current : RegistryEntry

namespace Analyzer

/-- Resolve a name outside every common table expression. -/
def resolved (resolver : Resolver) (current : RegistryEntry) (parts : List String) : Origin :=
  match RelationName.new parts with
  | none => .nothing
  | some relation =>
    match resolver.resolve current relation with
    | .model id => .model id
    | .external source => .source source
    | .ambiguous _ => .nothing

/-- `Analyzer::table_factor` at a named table: a common table expression shadows the
workspace relations. -/
def namedTable (a : Analyzer) (ctes : CteEnv) (name : ObjectName) : Origin :=
  match name.values with
  | [simple] =>
    match ctes (a.lower simple) with
    | some cte => .cte cte
    | none => resolved a.resolver a.current [simple]
  | parts => resolved a.resolver a.current parts

mutual

/-- `Analyzer::analyze_query`: each common table expression is analysed and entered, then
the body. -/
def query (a : Analyzer) : Query → AnalyzeState → AnalyzeState
  | .mk _ ctes body, s => a.setExpr body (a.withClause ctes s)

def withClause (a : Analyzer) : Ctes → AnalyzeState → AnalyzeState
  | .nil, s => s
  | .cons name subquery rest, s =>
    let analysed := a.query subquery s
    a.withClause rest
      { analysed with ctes := analysed.ctes.insert (a.lower name.value) name }

/-- `Analyzer::analyze_set_expr`. -/
def setExpr (a : Analyzer) : SetExpr → AnalyzeState → AnalyzeState
  | .select fromItems, s => a.fromItems fromItems s
  | .query query, s => a.query query s
  | .setOperation left right, s => a.setExpr right (a.setExpr left s)
  | .other, s => s

/-- `Analyzer::build_scope` and `Analyzer::add_table_with_joins`. -/
def fromItems (a : Analyzer) : FromItems → AnalyzeState → AnalyzeState
  | .nil, s => s
  | .cons factor rest, s => a.fromItems rest (a.tableFactor factor s)

/-- `Analyzer::table_factor`. -/
def tableFactor (a : Analyzer) : TableFactor → AnalyzeState → AnalyzeState
  | .table name false, s => { s with origins := s.origins ++ [a.namedTable s.ctes name] }
  -- Table functions are not analysed.
  | .table _ true, s => s
  | .derived subquery, s => a.query subquery s
  | .nestedJoin tables, s => a.fromItems tables s
  | .other, s => s

end

/-- Where the analyzer takes the columns of each reference from, in text order. -/
def origins (a : Analyzer) (query : Query) : List Origin :=
  (a.query query { ctes := .empty, origins := [] }).origins

end Analyzer

/-! ## The rewriter -/

/-- What the rewriter does to a named table. -/
inductive Rewritten where
  | cteBound
  | inlined (id : ModelId) (subquery : Query)
  | renamed (id : ModelId) (name : ObjectName)
  | unplaced (id : ModelId)
  | source (source : SourceId) (name : ObjectName)
  | ambiguous (candidates : List ModelId)
  | notRelation

/-- A rewriter of one model. -/
structure RelationRewriter where
  current : RegistryEntry
  resolver : Resolver
  targets : ModelId → Option Relation
  ephemerals : ModelId → Option Query
  defaultCatalog : Option String
  defaultSchema : Option String

namespace RelationRewriter

/-- The part of `pre_visit_table_factor` after the relation resolved to a model. -/
def rewriteModel (w : RelationRewriter) (id : ModelId) : Rewritten :=
  match w.ephemerals id with
  | some subquery => .inlined id subquery
  | none =>
    match w.targets id with
    | some target => .renamed id (objectName target)
    | none => .unplaced id

/-- `RelationRewriter::pre_visit_table_factor` at a named table. -/
def preVisitTableFactor (w : RelationRewriter) (cteScopes : List (List String))
    (name : ObjectName) : Rewritten :=
  match RelationName.new name.values with
  | none => .notRelation
  | some relation =>
    if isCte cteScopes relation then .cteBound
    else
      match w.resolver.resolve w.current relation with
      | .model id => w.rewriteModel id
      | .external source =>
        .source source (rewriteSource w.defaultCatalog w.defaultSchema source name)
      | .ambiguous candidates => .ambiguous candidates

/-- What `rewrite_statements` does to each reference of a query, in text order.  The walk
goes on into an inlined query and closes there what it opens; its references are not
references of this query. -/
def rewrite (w : RelationRewriter) (query : Query) : List Rewritten :=
  (query.visit (scopedVisitor fun cteScopes name => some (w.preVisitTableFactor cteScopes name))
    { cteScopes := [], recorded := [] }).recorded

end RelationRewriter

/-! ## Reading the same relation -/

/-- What a reference reads once it is rewritten: left alone, the innermost common table
expression of its name that is visible there. -/
def Rewritten.reads (r : Reference) : Rewritten → Option Origin
  | .cteBound => r.innermost.map .cte
  | .inlined id _ => some (.model id)
  | .renamed id _ => some (.model id)
  | .unplaced id => some (.model id)
  | .source external _ => some (.source external)
  | .ambiguous _ => some .nothing
  | .notRelation => some .nothing

/-- The analyzer and the rewriter of one model. -/
structure Frontend where
  lower : String → String
  rewriter : RelationRewriter

namespace Frontend

def analyzer (f : Frontend) : Analyzer where
  lower := f.lower
  resolver := f.rewriter.resolver
  current := f.rewriter.current

/-- The analyzer takes the columns of each reference from what the rewritten reference
reads. -/
def ReadsAlike (f : Frontend) (query : Query) : Prop :=
  (f.analyzer.origins query).map some =
    List.zipWith Rewritten.reads query.references (f.rewriter.rewrite query)

instance (f : Frontend) (query : Query) : Decidable (f.ReadsAlike query) :=
  inferInstanceAs (Decidable (List.map some _ = _))

end Frontend

/-- The last common table expression of the reference's name to end before it, up to case,
is the innermost one of its exact name that is visible there, where a WITH clause around
the reference has that name; elsewhere there is none. -/
def Settled (lower : String → String) (r : Reference) : Prop :=
  if r.isBound then r.innermost.isSome = true ∧ r.lastBefore lower = r.innermost
  else r.lastBefore lower = none

/-! ## What the analyzer binds -/

namespace Analyzer

variable {a : Analyzer} {before : List CteName}

/-- The environment holds the last of the common table expressions under each key. -/
def Holds (lower : String → String) (ctes : CteEnv) (before : List CteName) : Prop :=
  ∀ key, ctes key = before.find? fun cte => lower cte.value == key

theorem Holds.empty (lower : String → String) : Holds lower .empty [] :=
  fun _ => rfl

theorem Holds.insert {lower : String → String} {ctes : CteEnv} {before : List CteName}
    (h : Holds lower ctes before) (name : CteName) :
    Holds lower (ctes.insert (lower name.value) name) (name :: before) := by
  intro key
  by_cases hkey : key = lower name.value
  · subst hkey
    simp [CteEnv.insert]
  · have hne : (lower name.value == key) = false := by
      simpa using fun heq => hkey heq.symm
    simp [CteEnv.insert, hkey, hne, h key]

/-- The origin of a reference, by what ends before it. -/
def originOf (a : Analyzer) (r : Reference) : Origin :=
  match r.lastBefore a.lower with
  | some cte => .cte cte
  | none => resolved a.resolver a.current r.name.values

theorem namedTable_eq {ctes : CteEnv} (h : Holds a.lower ctes before) (scopes : List Scope)
    (name : ObjectName) : a.namedTable ctes name = a.originOf { name, scopes, before } := by
  unfold namedTable originOf Reference.lastBefore Reference.simple?
  cases hvalues : name.values with
  | nil => rfl
  | cons part rest =>
    cases rest with
    | nil => simp [h (a.lower part)]
    | cons other rest => rfl

/-- What the walk over a part of the query leads to. -/
structure Passed (a : Analyzer) (s after : AnalyzeState) (references : List Reference)
    (before : List CteName) : Prop where
  origins : after.origins = s.origins ++ references.map a.originOf
  holds : Holds a.lower after.ctes before

theorem Passed.nil {s : AnalyzeState} (h : Holds a.lower s.ctes before) : a.Passed s s [] before :=
  ⟨by simp, h⟩

theorem Passed.trans {s middle after : AnalyzeState} {first second : List Reference}
    {between : List CteName} (h : a.Passed s middle first between)
    (h' : a.Passed middle after second before) : a.Passed s after (first ++ second) before := by
  refine ⟨?_, h'.holds⟩
  rw [h'.origins, h.origins, List.map_append, List.append_assoc]

mutual

theorem passed_query (a : Analyzer) (q : Query) (scopes : List Scope) (before : List CteName)
    (s : AnalyzeState) (h : Holds a.lower s.ctes before) :
    a.Passed s (a.query q s) (q.referencesIn scopes before) (q.completed ++ before) := by
  match q with
  | .mk recursive ctes body =>
    have hctes := a.passed_withClause ctes recursive ctes.names [] scopes before s h
    have hbody := a.passed_setExpr body
      ({ declared := ctes.names, visible := ctes.names.reverse } :: scopes) _ _ hctes.holds
    rw [query, Query.referencesIn, Query.completed, List.append_assoc]
    exact hctes.trans hbody

theorem passed_withClause (a : Analyzer) (ctes : Ctes) (recursive : Bool)
    (declared earlier : List CteName) (scopes : List Scope) (before : List CteName)
    (s : AnalyzeState) (h : Holds a.lower s.ctes before) :
    a.Passed s (a.withClause ctes s) (ctes.referencesIn recursive declared earlier scopes before)
      (ctes.completed ++ before) := by
  match ctes with
  | .nil =>
    rw [withClause, Ctes.referencesIn, Ctes.completed]
    exact Passed.nil h
  | .cons name subquery rest =>
    have hquery := a.passed_query subquery
      ({ declared := declared
         visible := if recursive then declared.reverse else earlier } :: scopes) before s h
    have hentered : a.Passed s
        { a.query subquery s with
          ctes := (a.query subquery s).ctes.insert (a.lower name.value) name } _
        (name :: subquery.completed ++ before) :=
      ⟨hquery.origins, hquery.holds.insert name⟩
    have hrest := a.passed_withClause rest recursive declared (name :: earlier) scopes _ _
      hentered.holds
    rw [withClause, Ctes.referencesIn, Ctes.completed, List.append_assoc]
    exact hentered.trans hrest

theorem passed_setExpr (a : Analyzer) (body : SetExpr) (scopes : List Scope)
    (before : List CteName) (s : AnalyzeState) (h : Holds a.lower s.ctes before) :
    a.Passed s (a.setExpr body s) (body.referencesIn scopes before) (body.completed ++ before) := by
  match body with
  | .select items =>
    rw [setExpr, SetExpr.referencesIn, SetExpr.completed]
    exact a.passed_fromItems items scopes before s h
  | .query subquery =>
    rw [setExpr, SetExpr.referencesIn, SetExpr.completed]
    exact a.passed_query subquery scopes before s h
  | .setOperation left right =>
    have hleft := a.passed_setExpr left scopes before s h
    have hright := a.passed_setExpr right scopes _ _ hleft.holds
    rw [setExpr, SetExpr.referencesIn, SetExpr.completed, List.append_assoc]
    exact hleft.trans hright
  | .other =>
    rw [setExpr, SetExpr.referencesIn, SetExpr.completed]
    exact Passed.nil h

theorem passed_fromItems (a : Analyzer) (items : FromItems) (scopes : List Scope)
    (before : List CteName) (s : AnalyzeState) (h : Holds a.lower s.ctes before) :
    a.Passed s (a.fromItems items s) (items.referencesIn scopes before)
      (items.completed ++ before) := by
  match items with
  | .nil =>
    rw [fromItems, FromItems.referencesIn, FromItems.completed]
    exact Passed.nil h
  | .cons factor rest =>
    have hfactor := a.passed_tableFactor factor scopes before s h
    have hrest := a.passed_fromItems rest scopes _ _ hfactor.holds
    rw [fromItems, FromItems.referencesIn, FromItems.completed, List.append_assoc]
    exact hfactor.trans hrest

theorem passed_tableFactor (a : Analyzer) (factor : TableFactor) (scopes : List Scope)
    (before : List CteName) (s : AnalyzeState) (h : Holds a.lower s.ctes before) :
    a.Passed s (a.tableFactor factor s) (factor.referencesIn scopes before)
      (factor.completed ++ before) := by
  match factor with
  | .table name false =>
    rw [tableFactor, TableFactor.referencesIn, TableFactor.completed]
    exact ⟨by rw [namedTable_eq h scopes name]; rfl, h⟩
  | .table name true =>
    rw [tableFactor, TableFactor.referencesIn, TableFactor.completed]
    exact Passed.nil h
  | .derived subquery =>
    rw [tableFactor, TableFactor.referencesIn, TableFactor.completed]
    exact a.passed_query subquery scopes before s h
  | .nestedJoin tables =>
    rw [tableFactor, TableFactor.referencesIn, TableFactor.completed]
    exact a.passed_fromItems tables scopes before s h
  | .other =>
    rw [tableFactor, TableFactor.referencesIn, TableFactor.completed]
    exact Passed.nil h

end

/-- The analyzer binds a simple name to the last common table expression of that name that
ends before it. -/
theorem origins_eq (a : Analyzer) (q : Query) : a.origins q = q.references.map a.originOf := by
  have h := a.passed_query q [] [] { ctes := .empty, origins := [] } (Holds.empty a.lower)
  rw [origins, h.origins]
  rfl

theorem resolved_ne_cte {resolver : Resolver} {current : RegistryEntry}
    {parts : List String} {cte : CteName} : resolved resolver current parts ≠ .cte cte := by
  unfold resolved
  split
  · simp
  · split <;> simp

end Analyzer

/-! ## What the rewriter leaves alone -/

namespace RelationRewriter

variable {r : Reference}

/-- The rewriter looks at the WITH clauses around a reference. -/
theorem rewrite_eq (w : RelationRewriter) (query : Query) :
    w.rewrite query = query.references.map fun r => w.preVisitTableFactor r.cteScopes r.name := by
  rw [rewrite, Query.recorded_visit]
  exact congrFun List.filterMap_eq_map query.references

theorem cteBound_of_bound (w : RelationRewriter) (h : r.isBound = true) :
    w.preVisitTableFactor r.cteScopes r.name = .cteBound := by
  unfold Reference.isBound at h
  unfold preVisitTableFactor
  split at h
  · cases h
  · next relation hnew => simp [hnew, h]

theorem reads_of_not_bound (w : RelationRewriter) (h : r.isBound = false) :
    (w.preVisitTableFactor r.cteScopes r.name).reads r =
      some (Analyzer.resolved w.resolver w.current r.name.values) := by
  unfold Reference.isBound at h
  unfold preVisitTableFactor Analyzer.resolved
  split at h
  · next hnew => simp [hnew, Rewritten.reads]
  · next relation hnew =>
      simp only [hnew, h, Bool.false_eq_true, if_false]
      cases w.resolver.resolve w.current relation with
      | model id =>
        simp only [rewriteModel]
        cases w.ephemerals id with
        | some subquery => rfl
        | none => cases w.targets id <;> rfl
      | external source => rfl
      | ambiguous candidates => rfl

/-- The rewriter leaves alone what relation extraction leaves out. -/
theorem leaves_alone_iff (w : RelationRewriter) (r : Reference) :
    w.preVisitTableFactor r.cteScopes r.name = .cteBound ↔ r.isBound = true := by
  refine ⟨fun h => ?_, w.cteBound_of_bound⟩
  by_contra hbound
  have hreads := w.reads_of_not_bound (Bool.eq_false_iff.2 hbound)
  rw [h] at hreads
  obtain ⟨cte, -, hcte⟩ := Option.map_eq_some_iff.1 hreads
  exact Analyzer.resolved_ne_cte hcte.symm

end RelationRewriter

/-! ## Where both agree -/

namespace Frontend

variable {f : Frontend}

/-- At one reference: the environment of the analyzer against the scopes of the
rewriter. -/
theorem reads_iff_settled (r : Reference) :
    some (f.analyzer.originOf r) =
        (f.rewriter.preVisitTableFactor r.cteScopes r.name).reads r ↔ Settled f.lower r := by
  unfold Settled
  cases hbound : r.isBound with
  | true =>
    rw [f.rewriter.cteBound_of_bound hbound, Rewritten.reads, Analyzer.originOf, if_pos rfl]
    show _ ↔ r.innermost.isSome = true ∧ r.lastBefore f.analyzer.lower = r.innermost
    cases hlast : r.lastBefore f.analyzer.lower with
    | none =>
      cases hinner : r.innermost with
      | none => simp
      | some cte => simpa using Analyzer.resolved_ne_cte
    | some cte =>
      cases hinner : r.innermost <;> simp
  | false =>
    rw [f.rewriter.reads_of_not_bound hbound, Analyzer.originOf]
    show _ ↔ r.lastBefore f.analyzer.lower = none
    cases hlast : r.lastBefore f.analyzer.lower with
    | none => exact iff_of_true rfl rfl
    | some cte =>
      refine iff_of_false (fun h => ?_) (by simp)
      exact Analyzer.resolved_ne_cte (Option.some.inj h).symm

/-- Both read the same relations exactly where, at each reference, the last common table
expression to end before it is the innermost visible one of its name. -/
theorem readsAlike_iff_settled (f : Frontend) (query : Query) :
    f.ReadsAlike query ↔ ∀ r ∈ query.references, Settled f.lower r := by
  unfold ReadsAlike
  rw [Analyzer.origins_eq, RelationRewriter.rewrite_eq, List.zipWith_map_right,
    List.zipWith_self, List.map_map, List.map_inj_left]
  exact forall₂_congr fun r _ => reads_iff_settled r

/-- The model `shop.c`. -/
def shopC : ModelId where
  ns := "shop"
  path := ["c"]
  ns_valid := by decide
  path_ne_nil := by simp
  path_valid := by decide

/-- Compiles a model of the namespace `shop` in a workspace with the model `shop.c`. -/
def shop : Frontend where
  lower := fun name => String.ofList (name.toList.map Char.toLower)
  rewriter :=
    { current := { id := shopC, ns := "shop", root := none }
      resolver := .new [{ id := shopC, ns := "shop", root := none }]
      targets := fun _ => none
      ephemerals := fun _ => none
      defaultCatalog := none
      defaultSchema := none }

/-- `select * from (with c as (select 1 as x) select * from c) as d, c`. -/
def cteInSubquery : Query :=
  let c : FromItems := .cons (.table [Ident.new "c"] false) .nil
  .mk false .nil (.select (.cons
    (.derived (.mk false
      (.cons { value := "c", position := 20 } (.mk false .nil (.select .nil)) .nil)
      (.select c))) c))

/-- The second `c` is outside of the derived table: it is rewritten to the model, and the
analyzer takes its columns from the expression inside. -/
theorem cte_leaves_subquery : ¬shop.ReadsAlike cteInSubquery := by
  decide

end Frontend

end PhloTransform.Core
