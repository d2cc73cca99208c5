import PhloTransform.Core.Identity

/-!
# Physical relations

A resolved relation is a schema and a table under an optional catalog.  Its
dotted display form is what plans and records store.

Main results:

- Theorem `Relation.eq_of_display_eq`: under one catalog, the display form tells
  relations apart when their table names have no dots.
-/

namespace PhloTransform.Core

/-- A resolved physical relation. -/
@[ext]
structure Relation where
  catalog : Option String
  schema : String
  table : String
deriving Repr, DecidableEq

namespace Relation

def display (relation : Relation) : String :=
  match relation.catalog with
  | some catalog => catalog ++ "." ++ relation.schema ++ "." ++ relation.table
  | none => relation.schema ++ "." ++ relation.table

/-- Parse the display form back: `catalog.schema.table` or `schema.table`. -/
def parse (spec : String) : Option Relation :=
  match (spec.toList.splitOn '.').map String.ofList with
  | [schema, table] => some { catalog := none, schema, table }
  | [catalog, schema, table] => some { catalog := some catalog, schema, table }
  | _ => none

/-- The display form up to the table name. -/
def slotPrefix (relation : Relation) : String :=
  match relation.catalog with
  | some catalog => catalog ++ "." ++ relation.schema
  | none => relation.schema

theorem toList_display (relation : Relation) :
    relation.display.toList = relation.slotPrefix.toList ++ '.' :: relation.table.toList := by
  obtain ⟨catalog, schema, table⟩ := relation
  cases catalog <;> simp [display, slotPrefix]

theorem append_cons_inj {c : Char} {a b a' b' : List Char} (hb : c ∉ b) (hb' : c ∉ b')
    (h : a ++ c :: b = a' ++ c :: b') : a = a' ∧ b = b' := by
  rcases List.append_eq_append_iff.1 h with ⟨l, ha, hl⟩ | ⟨l, ha, hl⟩
  · cases l with
    | nil => simpa [eq_comm] using And.intro ha hl
    | cons x l =>
      simp only [List.cons_append, List.cons.injEq] at hl
      exact absurd (by simp [hl.2]) hb
  · cases l with
    | nil => simpa [eq_comm] using And.intro ha hl
    | cons x l =>
      simp only [List.cons_append, List.cons.injEq] at hl
      exact absurd (by simp [hl.2]) hb'

/-- Under one catalog, the display form tells relations apart when their table
names have no dots. -/
theorem eq_of_display_eq {a b : Relation} (hcatalog : a.catalog = b.catalog)
    (ha : '.' ∉ a.table.toList) (hb : '.' ∉ b.table.toList)
    (h : a.display = b.display) : a = b := by
  have hlist : a.slotPrefix.toList ++ '.' :: a.table.toList =
      b.slotPrefix.toList ++ '.' :: b.table.toList := by
    rw [← toList_display, ← toList_display, h]
  obtain ⟨hpre, htable⟩ := append_cons_inj ha hb hlist
  have hslot : a.slotPrefix = b.slotPrefix := String.toList_inj.1 hpre
  obtain ⟨catalog, schema, table⟩ := a
  obtain ⟨catalog', schema', table'⟩ := b
  obtain rfl : catalog = catalog' := hcatalog
  obtain rfl : table = table' := String.toList_inj.1 htable
  cases catalog with
  | none => simpa [slotPrefix] using hslot
  | some catalog => simpa [slotPrefix, String.append_assoc] using hslot

end Relation

/-- Build the physical relation for a logical source: short names take the
workspace defaults, longer ones are catalog-qualified already. -/
def relationForSource (source : SourceId) (defaultCatalog defaultSchema : Option String) :
    Relation :=
  match source.parts with
  | [] => { catalog := defaultCatalog, schema := defaultSchema.getD "default", table := "" }
  | [table] => { catalog := defaultCatalog, schema := defaultSchema.getD "default", table }
  | [schema, table] => { catalog := defaultCatalog, schema, table }
  | catalog :: schema :: rest =>
    { catalog := some catalog, schema, table := ".".intercalate rest }

end PhloTransform.Core
