import PhloTransform.Sql.Names

/-!
# Relations of a parsed query

The syntax tree of a query as far as relations are bound in it: WITH clauses, set
operations, derived tables and joins.  Expressions carry no relation here.

A reference to a table is described by where it stands: the WITH clauses around it and
the common table expressions whose text ends before it.  A walk that keeps a stack of
WITH clauses sees nothing else of the query.

Main results:

- Theorem `Query.visit_scoped`: a walk with a stack of scopes records each reference of
  the query under the WITH clauses around it.
- Theorem `extractRelations_eq`: the extracted relations are the references that no WITH
  clause around them names.
-/

namespace PhloTransform.Sql

/-! ## Relation names -/

/-- A relation name as written in SQL, split into its dotted components. -/
structure RelationName where
  parts : List String
  parts_ne_nil : parts ≠ []
  part_ne_empty : ∀ part ∈ parts, part ≠ ""
deriving Repr

instance : DecidableEq RelationName := fun a b =>
  decidable_of_iff (a.parts = b.parts)
    ⟨fun h => by
      cases a
      cases b
      cases h
      rfl, congrArg RelationName.parts⟩

namespace RelationName

/-- No name without components or with an empty one. -/
def new (parts : List String) : Option RelationName :=
  if h : parts ≠ [] ∧ ∀ part ∈ parts, part ≠ "" then some ⟨parts, h.1, h.2⟩ else none

/-- Whether the name has no schema qualifier. -/
def isSimple (name : RelationName) : Bool :=
  name.parts.length == 1

/-- The name as written, e.g. `assay.results`. -/
def asDotted (name : RelationName) : String :=
  ".".intercalate name.parts

/-- The final component, e.g. `results`. -/
def last (name : RelationName) : String :=
  name.parts.getLast name.parts_ne_nil

end RelationName

/-! ## Queries -/

/-- The alias of a common table expression and where it stands in the text. -/
structure CteName where
  value : String
  position : Nat
deriving DecidableEq, Repr

mutual

/-- A WITH clause, which may be empty, and a body. -/
inductive Query where
  | mk (recursive : Bool) (ctes : Ctes) (body : SetExpr)

inductive Ctes where
  | nil
  | cons (name : CteName) (query : Query) (rest : Ctes)

inductive SetExpr where
  | select (fromItems : FromItems)
  | query (query : Query)
  | setOperation (left right : SetExpr)
  | other

/-- The relations of a FROM clause, those of its joins in their place. -/
inductive FromItems where
  | nil
  | cons (factor : TableFactor) (rest : FromItems)

inductive TableFactor where
  /-- A named table, or a table function when it has arguments. -/
  | table (name : ObjectName) (args : Bool)
  | derived (subquery : Query)
  | nestedJoin (tables : FromItems)
  | other

end

def Ctes.names : Ctes → List CteName
  | .nil => []
  | .cons name _ rest => name :: rest.names

/-- The aliases that a query declares itself. -/
def Query.withNames : Query → List CteName
  | .mk _ ctes _ => ctes.names

/-! ## Walks over a query -/

/-- The callbacks of a visitor, over the state it carries. -/
structure Visitor (σ : Type) where
  preVisitQuery : Query → σ → σ
  postVisitQuery : Query → σ → σ
  preVisitTableFactor : TableFactor → σ → σ

mutual

def Query.visit {σ : Type} (v : Visitor σ) : Query → σ → σ
  | .mk recursive ctes body, s =>
    v.postVisitQuery (.mk recursive ctes body)
      (body.visit v (ctes.visit v (v.preVisitQuery (.mk recursive ctes body) s)))

def Ctes.visit {σ : Type} (v : Visitor σ) : Ctes → σ → σ
  | .nil, s => s
  | .cons _ query rest, s => rest.visit v (query.visit v s)

def SetExpr.visit {σ : Type} (v : Visitor σ) : SetExpr → σ → σ
  | .select fromItems, s => fromItems.visit v s
  | .query query, s => query.visit v s
  | .setOperation left right, s => right.visit v (left.visit v s)
  | .other, s => s

def FromItems.visit {σ : Type} (v : Visitor σ) : FromItems → σ → σ
  | .nil, s => s
  | .cons factor rest, s => rest.visit v (factor.visit v s)

def TableFactor.visit {σ : Type} (v : Visitor σ) : TableFactor → σ → σ
  | .table name args, s => v.preVisitTableFactor (.table name args) s
  | .derived subquery, s => subquery.visit v (v.preVisitTableFactor (.derived subquery) s)
  | .nestedJoin tables, s => tables.visit v (v.preVisitTableFactor (.nestedJoin tables) s)
  | .other, s => v.preVisitTableFactor .other s

end

/-! ## Walks with a stack of scopes -/

/-- What a walk with scopes carries: the aliases of the queries around, innermost first,
and what it recorded. -/
structure ScopedWalk (β : Type) where
  cteScopes : List (List String)
  recorded : List β

/-- A visitor that opens a scope for each query and records the named tables. -/
def scopedVisitor {β : Type} (record : List (List String) → ObjectName → Option β) :
    Visitor (ScopedWalk β) where
  preVisitQuery query s := { s with cteScopes := query.withNames.map (·.value) :: s.cteScopes }
  postVisitQuery _ s := { s with cteScopes := s.cteScopes.tail }
  preVisitTableFactor factor s :=
    match factor with
    | .table name false =>
      { s with recorded := s.recorded ++ (record s.cteScopes name).toList }
    | _ => s

/-- `is_cte`: a simple name that a scope has. -/
def isCte (cteScopes : List (List String)) (name : RelationName) : Bool :=
  name.isSimple && cteScopes.any fun scope => scope.any fun candidate => candidate == name.last

/-- `RelationVisitor::record`. -/
def recordRelation (cteScopes : List (List String)) (name : ObjectName) : Option RelationName :=
  match RelationName.new name.values with
  | none => none
  | some relation => if isCte cteScopes relation then none else some relation

/-- `extract_relations`: the table relations of a query in source order, without the names
of common table expressions. -/
def extractRelations (query : Query) : List RelationName :=
  (query.visit (scopedVisitor recordRelation) { cteScopes := [], recorded := [] }).recorded

/-! ## Where a reference stands -/

/-- A WITH clause around a reference: all that it declares, and what of it is visible at
the reference, latest first.  A recursive clause is visible throughout; any other is
visible from the expression after on. -/
structure Scope where
  declared : List CteName
  visible : List CteName
deriving DecidableEq, Repr

/-- A named table, the WITH clauses around it from the innermost on, and the common table
expressions that end before it, latest first. -/
structure Reference where
  name : ObjectName
  scopes : List Scope
  before : List CteName
deriving DecidableEq, Repr

mutual

/-- The common table expressions inside a query, the one that ends last first. -/
def Query.completed : Query → List CteName
  | .mk _ ctes body => body.completed ++ ctes.completed

def Ctes.completed : Ctes → List CteName
  | .nil => []
  | .cons name query rest => rest.completed ++ name :: query.completed

def SetExpr.completed : SetExpr → List CteName
  | .select fromItems => fromItems.completed
  | .query query => query.completed
  | .setOperation left right => right.completed ++ left.completed
  | .other => []

def FromItems.completed : FromItems → List CteName
  | .nil => []
  | .cons factor rest => rest.completed ++ factor.completed

def TableFactor.completed : TableFactor → List CteName
  | .table _ _ => []
  | .derived subquery => subquery.completed
  | .nestedJoin tables => tables.completed
  | .other => []

end

mutual

/-- The references of a query in text order, given what surrounds and precedes it. -/
def Query.referencesIn (scopes : List Scope) (before : List CteName) : Query → List Reference
  | .mk recursive ctes body =>
    ctes.referencesIn recursive ctes.names [] scopes before ++
      body.referencesIn ({ declared := ctes.names, visible := ctes.names.reverse } :: scopes)
        (ctes.completed ++ before)

def Ctes.referencesIn (recursive : Bool) (declared earlier : List CteName)
    (scopes : List Scope) (before : List CteName) : Ctes → List Reference
  | .nil => []
  | .cons name query rest =>
    query.referencesIn
        ({ declared := declared
           visible := if recursive then declared.reverse else earlier } :: scopes) before ++
      rest.referencesIn recursive declared (name :: earlier) scopes
        (name :: query.completed ++ before)

def SetExpr.referencesIn (scopes : List Scope) (before : List CteName) :
    SetExpr → List Reference
  | .select fromItems => fromItems.referencesIn scopes before
  | .query query => query.referencesIn scopes before
  | .setOperation left right =>
    left.referencesIn scopes before ++ right.referencesIn scopes (left.completed ++ before)
  | .other => []

def FromItems.referencesIn (scopes : List Scope) (before : List CteName) :
    FromItems → List Reference
  | .nil => []
  | .cons factor rest =>
    factor.referencesIn scopes before ++ rest.referencesIn scopes (factor.completed ++ before)

def TableFactor.referencesIn (scopes : List Scope) (before : List CteName) :
    TableFactor → List Reference
  | .table name false => [{ name, scopes, before }]
  | .table _ true => []
  | .derived subquery => subquery.referencesIn scopes before
  | .nestedJoin tables => tables.referencesIn scopes before
  | .other => []

end

/-- The references of a query in text order. -/
def Query.references (query : Query) : List Reference :=
  query.referencesIn [] []

namespace Reference

/-- The names of the WITH clauses around a reference. -/
def cteScopes (r : Reference) : List (List String) :=
  r.scopes.map fun scope => scope.declared.map (·.value)

/-- The name of a reference without a qualifier. -/
def simple? (r : Reference) : Option String :=
  match r.name.values with
  | [name] => some name
  | _ => none

/-- Whether some WITH clause around the reference declares its name. -/
def isBound (r : Reference) : Bool :=
  match RelationName.new r.name.values with
  | none => false
  | some relation => isCte r.cteScopes relation

/-- The innermost common table expression of that name that is visible at the reference. -/
def innermost (r : Reference) : Option CteName :=
  r.simple?.bind fun name =>
    r.scopes.findSome? fun scope => scope.visible.find? fun cte => cte.value == name

/-- The last common table expression to end before the reference whose name is that of
the reference up to `lower`. -/
def lastBefore (lower : String → String) (r : Reference) : Option CteName :=
  r.simple?.bind fun name => r.before.find? fun cte => lower cte.value == lower name

end Reference

/-! ## The stack of scopes agrees with the tree -/

section Walk

variable {β : Type} (record : List (List String) → ObjectName → Option β)

/-- What a reference leads the walk to record. -/
def recordAt (r : Reference) : Option β :=
  record r.cteScopes r.name

def ScopedWalk.extend (s : ScopedWalk β) (references : List Reference) : ScopedWalk β where
  cteScopes := s.cteScopes
  recorded := s.recorded ++ references.filterMap (recordAt record)

/-- The stack holds the names of the WITH clauses around. -/
def Stacked (s : ScopedWalk β) (scopes : List Scope) : Prop :=
  s.cteScopes = scopes.map fun scope => scope.declared.map (·.value)

variable {record}

theorem extend_append (s : ScopedWalk β) (first second : List Reference) :
    (s.extend record first).extend record second = s.extend record (first ++ second) := by
  simp [ScopedWalk.extend]

theorem Stacked.extend {s : ScopedWalk β} {scopes : List Scope} (h : Stacked s scopes)
    (references : List Reference) : Stacked (s.extend record references) scopes :=
  h

mutual

/-- A walk with a stack of scopes records each reference under the clauses around it. -/
theorem Query.visit_scoped (query : Query) (scopes : List Scope) (before : List CteName)
    (s : ScopedWalk β) (h : Stacked s scopes) :
    query.visit (scopedVisitor record) s = s.extend record (query.referencesIn scopes before) := by
  match query with
  | .mk recursive ctes body =>
    have hopen (visible : List CteName) :
        Stacked ((scopedVisitor record).preVisitQuery (.mk recursive ctes body) s)
          ({ declared := ctes.names, visible } :: scopes) := by
      simp only [Stacked] at h
      simp [Stacked, scopedVisitor, Query.withNames, h]
    rw [Query.visit, ctes.visit_scoped recursive ctes.names [] scopes before _ hopen,
      body.visit_scoped _ (ctes.completed ++ before) _ ((hopen ctes.names.reverse).extend _),
      extend_append, Query.referencesIn]
    simp [scopedVisitor, ScopedWalk.extend]

theorem Ctes.visit_scoped (ctes : Ctes) (recursive : Bool) (declared earlier : List CteName)
    (scopes : List Scope) (before : List CteName) (s : ScopedWalk β)
    (h : ∀ visible, Stacked s ({ declared, visible } :: scopes)) :
    ctes.visit (scopedVisitor record) s =
      s.extend record (ctes.referencesIn recursive declared earlier scopes before) := by
  match ctes with
  | .nil => simp [Ctes.visit, Ctes.referencesIn, ScopedWalk.extend]
  | .cons name query rest =>
    rw [Ctes.visit, query.visit_scoped _ before s (h _),
      rest.visit_scoped recursive declared (name :: earlier) scopes
        (name :: query.completed ++ before) _ (fun visible => (h visible).extend _),
      extend_append, Ctes.referencesIn]

theorem SetExpr.visit_scoped (body : SetExpr) (scopes : List Scope) (before : List CteName)
    (s : ScopedWalk β) (h : Stacked s scopes) :
    body.visit (scopedVisitor record) s = s.extend record (body.referencesIn scopes before) := by
  match body with
  | .select fromItems =>
    rw [SetExpr.visit, fromItems.visit_scoped scopes before s h, SetExpr.referencesIn]
  | .query query => rw [SetExpr.visit, query.visit_scoped scopes before s h, SetExpr.referencesIn]
  | .setOperation left right =>
    rw [SetExpr.visit, left.visit_scoped scopes before s h,
      right.visit_scoped scopes (left.completed ++ before) _ (h.extend _), extend_append,
      SetExpr.referencesIn]
  | .other => simp [SetExpr.visit, SetExpr.referencesIn, ScopedWalk.extend]

theorem FromItems.visit_scoped (items : FromItems) (scopes : List Scope)
    (before : List CteName) (s : ScopedWalk β) (h : Stacked s scopes) :
    items.visit (scopedVisitor record) s = s.extend record (items.referencesIn scopes before) := by
  match items with
  | .nil => simp [FromItems.visit, FromItems.referencesIn, ScopedWalk.extend]
  | .cons factor rest =>
    rw [FromItems.visit, factor.visit_scoped scopes before s h,
      rest.visit_scoped scopes (factor.completed ++ before) _ (h.extend _), extend_append,
      FromItems.referencesIn]

theorem TableFactor.visit_scoped (factor : TableFactor) (scopes : List Scope)
    (before : List CteName) (s : ScopedWalk β) (h : Stacked s scopes) :
    factor.visit (scopedVisitor record) s =
      s.extend record (factor.referencesIn scopes before) := by
  match factor with
  | .table name false =>
    have hscopes : s.cteScopes = scopes.map fun scope => scope.declared.map (·.value) := h
    cases hrecord : record s.cteScopes name <;>
      simp [TableFactor.visit, TableFactor.referencesIn, scopedVisitor, ScopedWalk.extend,
        recordAt, Reference.cteScopes, ← hscopes, hrecord]
  | .table name true =>
    simp [TableFactor.visit, TableFactor.referencesIn, scopedVisitor, ScopedWalk.extend]
  | .derived subquery =>
    rw [TableFactor.visit, TableFactor.referencesIn]
    exact subquery.visit_scoped scopes before s h
  | .nestedJoin tables =>
    rw [TableFactor.visit, TableFactor.referencesIn]
    exact tables.visit_scoped scopes before s h
  | .other =>
    simp [TableFactor.visit, TableFactor.referencesIn, scopedVisitor, ScopedWalk.extend]

end

theorem Query.recorded_visit (query : Query) :
    (query.visit (scopedVisitor record) { cteScopes := [], recorded := [] }).recorded =
      query.references.filterMap (recordAt record) := by
  have hempty : Stacked ({ cteScopes := [], recorded := [] } : ScopedWalk β) [] := rfl
  rw [query.visit_scoped [] [] _ hempty]
  rfl

end Walk

/-- The extracted relations are the references that no WITH clause around them names. -/
theorem extractRelations_eq (query : Query) :
    extractRelations query =
      (query.references.filter fun r => !r.isBound).filterMap
        fun r => RelationName.new r.name.values := by
  rw [extractRelations, Query.recorded_visit, List.filterMap_filter]
  apply List.filterMap_congr
  intro r _
  unfold recordAt recordRelation Reference.isBound
  split
  · next hnew => simp [hnew]
  · next relation hnew =>
      by_cases hcte : isCte r.cteScopes relation = true
      · simp [hcte]
      · simp [hnew, hcte]

end PhloTransform.Sql
