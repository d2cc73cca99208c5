import Mathlib.Data.List.Basic

/-!
# Names in SQL text

An identifier stands in a statement with or without quotes.  Quoted it names its value;
bare it names its value only where the dialect reads the text as one identifier.

Main results:

- Theorem `Ident.named_eq_some`: an identifier names nothing but its value.
- Theorem `ObjectName.named_eq_some`: the same for a dotted name.
-/

namespace PhloTransform.Sql

structure Ident where
  value : String
  quoted : Bool
deriving DecidableEq, Repr

/-- `Ident::new`: an identifier that is printed without quotes. -/
def Ident.new (value : String) : Ident where
  value := value
  quoted := false

abbrev ObjectName := List Ident

/-- The texts that a dialect reads, without quotes, as one identifier. -/
abbrev Dialect := String → Bool

def Ident.named (bare : Dialect) (ident : Ident) : Option String :=
  if ident.quoted || bare ident.value then some ident.value else none

/-- What the printed name names, part by part. -/
def ObjectName.named (bare : Dialect) (name : ObjectName) : Option (List String) :=
  name.mapM (Ident.named bare)

def ObjectName.values (name : ObjectName) : List String :=
  name.map (·.value)

/-- Every part reads back, as the parts of a parsed name do. -/
def ObjectName.Legible (bare : Dialect) (name : ObjectName) : Prop :=
  ∀ ident ∈ name, (ident.quoted || bare ident.value) = true

theorem Ident.named_eq_some {bare : Dialect} {ident : Ident} {value : String} :
    ident.named bare = some value ↔
      (ident.quoted || bare ident.value) = true ∧ ident.value = value := by
  unfold Ident.named
  split
  · next h => simp [h]
  · next h => simp [h]

/-- A printed name that is legible names its parts, and any other names nothing. -/
theorem ObjectName.named_eq_some {bare : Dialect} {name : ObjectName} {parts : List String} :
    ObjectName.named bare name = some parts ↔
      ObjectName.Legible bare name ∧ ObjectName.values name = parts := by
  induction name generalizing parts with
  | nil =>
    constructor
    · intro h
      have hparts : [] = parts := Option.some.inj h
      exact ⟨fun _ h => absurd h List.not_mem_nil, hparts⟩
    · rintro ⟨-, rfl⟩
      rfl
  | cons ident name ih =>
    have hcons : ObjectName.named bare (ident :: name) = some parts ↔
        ∃ value, ident.named bare = some value ∧
          ∃ rest, ObjectName.named bare name = some rest ∧ value :: rest = parts := by
      simp [ObjectName.named, List.mapM_cons, Option.bind_eq_some_iff]
    rw [hcons]
    simp only [Ident.named_eq_some, ih]
    constructor
    · rintro ⟨value, ⟨hident, rfl⟩, rest, ⟨hname, rfl⟩, rfl⟩
      exact ⟨List.forall_mem_cons.2 ⟨hident, hname⟩, rfl⟩
    · rintro ⟨hlegible, rfl⟩
      obtain ⟨hident, hname⟩ := List.forall_mem_cons.1 hlegible
      exact ⟨ident.value, ⟨hident, rfl⟩, ObjectName.values name, ⟨hname, rfl⟩, rfl⟩

end PhloTransform.Sql
