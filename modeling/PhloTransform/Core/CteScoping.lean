import PhloTransform.Core.CteBinding

/-!
# The scopes of common table expressions

SQL binds a name without a qualifier to a common table expression in the body of the query that
declares it, in the expressions after it in the same WITH clause, and, in a recursive clause, in
its own definition.  Relation extraction and the rewriter open one scope for a whole query, with
every name that its WITH clause declares.  A sub-select in an expression is walked, and scoped,
as a derived table in its place.

Main results:

- Theorem `Query.references_scoped`: each reference stands under the same WITH clauses in both
  readings.
- Theorem `RelationRewriter.resolves_reported`: the rewriter takes up what extraction reports.
-/

namespace PhloTransform
namespace Sql

/-! ## What SQL binds -/

/-- A named table, the names that the WITH clauses around it declare, and the names that are
bound where it stands. -/
structure ScopedName where
  name : ObjectName
  cteScopes : List (List String)
  bound : List String
deriving DecidableEq, Repr

mutual

/-- The named tables of a query in text order, given what is declared around and what is
bound. -/
def Query.scopedIn (cteScopes : List (List String)) (bound : List String) :
    Query → List ScopedName
  | .mk recursive ctes body =>
    ctes.scopedIn recursive (ctes.names.map (·.value) :: cteScopes) bound ++
      body.scopedIn (ctes.names.map (·.value) :: cteScopes)
        (ctes.names.map (·.value) ++ bound)

/-- An expression binds its name after it, and in itself when the clause is recursive. -/
def Ctes.scopedIn (recursive : Bool) (cteScopes : List (List String)) (bound : List String) :
    Ctes → List ScopedName
  | .nil => []
  | .cons name query rest =>
    query.scopedIn cteScopes (if recursive then name.value :: bound else bound) ++
      rest.scopedIn recursive cteScopes (name.value :: bound)

def SetExpr.scopedIn (cteScopes : List (List String)) (bound : List String) :
    SetExpr → List ScopedName
  | .select fromItems => fromItems.scopedIn cteScopes bound
  | .query query => query.scopedIn cteScopes bound
  | .setOperation left right =>
    left.scopedIn cteScopes bound ++ right.scopedIn cteScopes bound
  | .other => []

def FromItems.scopedIn (cteScopes : List (List String)) (bound : List String) :
    FromItems → List ScopedName
  | .nil => []
  | .cons factor rest => factor.scopedIn cteScopes bound ++ rest.scopedIn cteScopes bound

def TableFactor.scopedIn (cteScopes : List (List String)) (bound : List String) :
    TableFactor → List ScopedName
  | .table name false => [{ name, cteScopes, bound }]
  | .table _ true => []
  | .derived subquery => subquery.scopedIn cteScopes bound
  | .nestedJoin tables => tables.scopedIn cteScopes bound
  | .other => []

end

/-- The named tables of a query in text order. -/
def Query.scoped (query : Query) : List ScopedName :=
  query.scopedIn [] []

namespace ScopedName

/-- A name without a qualifier that is bound, as the dialect folds names. -/
def binds (fold : String → String) (r : ScopedName) (relation : RelationName) : Bool :=
  relation.isSimple && r.bound.any fun cte => fold cte == fold relation.last

/-- The relation of a reference that SQL leaves free. -/
def free? (fold : String → String) (r : ScopedName) : Option RelationName :=
  match RelationName.new r.name.values with
  | none => none
  | some relation => if r.binds fold relation then none else some relation

/-- The relation that extraction records at a reference. -/
def recorded? (r : ScopedName) : Option RelationName :=
  recordRelation r.cteScopes r.name

end ScopedName

/-! ## Both readings walk alike -/

/-- A reference's name, and the WITH clauses around it. -/
def Reference.stands (r : Reference) : ObjectName × List (List String) :=
  (r.name, r.cteScopes)

def ScopedName.stands (r : ScopedName) : ObjectName × List (List String) :=
  (r.name, r.cteScopes)

/-- The declared names of the scopes around. -/
def declaredNames (scopes : List Scope) : List (List String) :=
  scopes.map fun scope => scope.declared.map (·.value)

mutual

theorem Query.map_stands (query : Query) (scopes : List Scope) (before : List CteName)
    (bound : List String) :
    (query.referencesIn scopes before).map Reference.stands =
      (query.scopedIn (declaredNames scopes) bound).map ScopedName.stands := by
  match query with
  | .mk recursive ctes body =>
    rw [Query.referencesIn, Query.scopedIn, List.map_append, List.map_append,
      ctes.map_stands recursive ctes.names [] scopes before bound, body.map_stands]
    rfl

theorem Ctes.map_stands (ctes : Ctes) (recursive : Bool) (declared earlier : List CteName)
    (scopes : List Scope) (before : List CteName) (bound : List String) :
    (ctes.referencesIn recursive declared earlier scopes before).map Reference.stands =
      (ctes.scopedIn recursive (declared.map (·.value) :: declaredNames scopes) bound).map
        ScopedName.stands := by
  match ctes with
  | .nil => rfl
  | .cons name query rest =>
    rw [Ctes.referencesIn, Ctes.scopedIn, List.map_append, List.map_append,
      query.map_stands _ before (if recursive then name.value :: bound else bound),
      rest.map_stands recursive declared (name :: earlier) scopes _ (name.value :: bound)]
    rfl

theorem SetExpr.map_stands (body : SetExpr) (scopes : List Scope) (before : List CteName)
    (bound : List String) :
    (body.referencesIn scopes before).map Reference.stands =
      (body.scopedIn (declaredNames scopes) bound).map ScopedName.stands := by
  match body with
  | .select fromItems =>
    rw [SetExpr.referencesIn, SetExpr.scopedIn, fromItems.map_stands]
  | .query query => rw [SetExpr.referencesIn, SetExpr.scopedIn, query.map_stands]
  | .setOperation left right =>
    rw [SetExpr.referencesIn, SetExpr.scopedIn, List.map_append, List.map_append,
      left.map_stands scopes before bound, right.map_stands]
  | .other => rfl

theorem FromItems.map_stands (items : FromItems) (scopes : List Scope) (before : List CteName)
    (bound : List String) :
    (items.referencesIn scopes before).map Reference.stands =
      (items.scopedIn (declaredNames scopes) bound).map ScopedName.stands := by
  match items with
  | .nil => rfl
  | .cons factor rest =>
    rw [FromItems.referencesIn, FromItems.scopedIn, List.map_append, List.map_append,
      factor.map_stands scopes before bound, rest.map_stands]

theorem TableFactor.map_stands (factor : TableFactor) (scopes : List Scope)
    (before : List CteName) (bound : List String) :
    (factor.referencesIn scopes before).map Reference.stands =
      (factor.scopedIn (declaredNames scopes) bound).map ScopedName.stands := by
  match factor with
  | .table name false => rfl
  | .table name true => rfl
  | .derived subquery =>
    rw [TableFactor.referencesIn, TableFactor.scopedIn, subquery.map_stands]
  | .nestedJoin tables =>
    rw [TableFactor.referencesIn, TableFactor.scopedIn, tables.map_stands]
  | .other => rfl

end

/-- Each reference stands under the same WITH clauses in both readings. -/
theorem Query.references_scoped (query : Query) :
    query.references.map Reference.stands = query.scoped.map ScopedName.stands :=
  query.map_stands [] [] []

theorem extractRelations_eq_scoped (query : Query) :
    extractRelations query = query.scoped.filterMap ScopedName.recorded? := by
  have hreferences : query.references.filterMap (recordAt recordRelation) =
      (query.references.map Reference.stands).filterMap fun p => recordRelation p.2 p.1 := by
    rw [List.filterMap_map]
    rfl
  rw [extractRelations, Query.recorded_visit, hreferences, query.references_scoped,
    List.filterMap_map]
  rfl

/-! ## What is misread -/

namespace ScopedName

/-- A clause around the reference declares its name, and no table of the name is bound there:
the reference stands in the definition of that table, or before it. -/
def Premature (fold : String → String) (r : ScopedName) : Prop :=
  ∃ relation, RelationName.new r.name.values = some relation ∧
    isCte r.cteScopes relation = true ∧ r.binds fold relation = false

/-- The reference is bound, and no clause around it declares its name in its letters. -/
def Respelled (fold : String → String) (r : ScopedName) : Prop :=
  ∃ relation, RelationName.new r.name.values = some relation ∧
    isCte r.cteScopes relation = false ∧ r.binds fold relation = true

end ScopedName

end Sql

namespace Core

open Sql

/-! ## What the rewriter takes up -/

/-- The rewriter resolved the reference. -/
def Rewritten.isResolved : Rewritten → Bool
  | .cteBound => false
  | .notRelation => false
  | _ => true

/-- At one reference, the rewriter resolves what extraction records. -/
theorem RelationRewriter.isResolved_preVisitTableFactor (w : RelationRewriter)
    (cteScopes : List (List String)) (name : ObjectName) :
    (w.preVisitTableFactor cteScopes name).isResolved = (recordRelation cteScopes name).isSome := by
  unfold preVisitTableFactor recordRelation
  cases RelationName.new name.values with
  | none => rfl
  | some relation =>
    by_cases hcte : isCte cteScopes relation = true
    · simp [hcte, Rewritten.isResolved]
    · simp only [hcte, Bool.false_eq_true, if_false, Option.isSome_some]
      cases w.resolver.resolve w.current relation with
      | model id =>
        simp only [rewriteModel]
        cases w.ephemerals id with
        | some subquery => rfl
        | none => cases w.targets id <;> rfl
      | external source => rfl
      | ambiguous candidates => rfl

theorem RelationRewriter.resolves_reported (w : RelationRewriter) (query : Query) :
    (w.rewrite query).map Rewritten.isResolved = query.scoped.map fun r => r.recorded?.isSome := by
  calc (w.rewrite query).map Rewritten.isResolved
      = query.references.map fun r => (recordRelation r.cteScopes r.name).isSome := by
        rw [w.rewrite_eq, List.map_map]
        exact List.map_congr_left fun r _ => w.isResolved_preVisitTableFactor r.cteScopes r.name
    _ = (query.references.map Reference.stands).map fun p =>
          (recordRelation p.2 p.1).isSome := by
        rw [List.map_map]
        rfl
    _ = query.scoped.map fun r => r.recorded?.isSome := by
        rw [query.references_scoped, List.map_map]
        rfl

/-! ## Scopes as SQL has them -/

/-- The report is the references that SQL leaves free, each for itself, and the rewriter takes up
what extraction reports. -/
structure ScopesCtes (fold : String → String) (query : Query) : Prop where
  extracted : extractRelations query = query.scoped.filterMap (ScopedName.free? fold)
  reported : query.scoped.map ScopedName.recorded? = query.scoped.map (ScopedName.free? fold)
  rewritten : ∀ w : RelationRewriter, (w.rewrite query).map Rewritten.isResolved =
    query.scoped.map fun r => r.recorded?.isSome

theorem recorded?_eq_free?_iff {fold : String → String} {r : ScopedName} :
    r.recorded? = r.free? fold ↔ ¬ r.Premature fold ∧ ¬ r.Respelled fold := by
  unfold ScopedName.recorded? ScopedName.free? recordRelation ScopedName.Premature
    ScopedName.Respelled
  cases RelationName.new r.name.values with
  | none => simp
  | some relation =>
    cases isCte r.cteScopes relation <;> cases hbinds : r.binds fold relation <;>
      simp [hbinds]

/-- Extraction reports the references that SQL leaves free exactly when no reference stands in
the definition of the table it names, or before it, and none spells a bound name in other
letters. -/
theorem scopesCtes_iff (fold : String → String) (query : Query) :
    ScopesCtes fold query ↔ ∀ r ∈ query.scoped, ¬ r.Premature fold ∧ ¬ r.Respelled fold := by
  constructor
  · intro h r hr
    exact recorded?_eq_free?_iff.1 (List.map_inj_left.1 h.reported r hr)
  · intro h
    have hall : ∀ r ∈ query.scoped, r.recorded? = r.free? fold :=
      fun r hr => recorded?_eq_free?_iff.2 (h r hr)
    constructor
    · rw [extractRelations_eq_scoped]
      exact List.filterMap_congr hall
    · exact List.map_congr_left hall
    · intro w
      exact w.resolves_reported query

/-! ## A common table expression over a table of its name -/

namespace Sample

def selectRaw : SetExpr :=
  .select (.cons (.table [{ value := "raw", quoted := false }] false) .nil)

def rawOverRaw : Query :=
  .mk false (.cons { value := "raw", position := 5 } (.mk false .nil selectRaw) .nil) selectRaw

/-- SQL leaves the inner name free, and extraction reports nothing. -/
theorem rawOverRaw_unreported : extractRelations rawOverRaw = [] ∧
    (rawOverRaw.scoped.filterMap (ScopedName.free? fun name => name)).map
      RelationName.asDotted = ["raw"] ∧ ¬ ScopesCtes (fun name => name) rawOverRaw := by
  refine ⟨by decide +kernel, by decide +kernel, ?_⟩
  intro h
  exact absurd h.reported (by decide +kernel)

end Sample

end Core
end PhloTransform
