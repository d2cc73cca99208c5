import PhloTransform.Core.Relation
import PhloTransform.Library.Delimited

/-!
# Relation names as a database reads them

A statement names a relation by its quoted form or by its display form.  A database reads a
dotted name part by part: a part in double quotes is its text, and a part without quotes must
be a bare identifier.

Main results:

- Theorem `readName_sql`: the quoted form names the relation, whatever its identifiers are.
- Theorem `readName_display_iff`: the display form names the relation exactly when its
  identifiers are bare.
-/

namespace PhloTransform.Core

open Library

variable {rest part : List Char} {place : Nat}
variable {text : List Char} {parts : List (List Char)}

/-! ## The two forms -/

def quoteIdentifier (value : String) : List Char :=
  delimited '"' value.toList

namespace Relation

def path (relation : Relation) : List (List Char) :=
  match relation.catalog with
  | some catalog => [catalog.toList, relation.schema.toList, relation.table.toList]
  | none => [relation.schema.toList, relation.table.toList]

/-- The relation as a quoted dotted identifier. -/
def sql (relation : Relation) : List Char :=
  match relation.catalog with
  | some catalog =>
    quoteIdentifier catalog ++ '.' :: (quoteIdentifier relation.schema ++
      '.' :: quoteIdentifier relation.table)
  | none => quoteIdentifier relation.schema ++ '.' :: quoteIdentifier relation.table

end Relation

/-! ## Reading a name -/

/-- A letter, an underscore, or a character outside of ASCII. -/
def isIdentStart (c : Char) : Bool :=
  c.isAlpha || c == '_' || 128 ≤ c.toNat

/-- What may stand after the first character of a bare identifier. -/
def isIdentChar (c : Char) : Bool :=
  isIdentStart c || c.isDigit || c == '$'

section Reading

variable (reserved : Nat → List Char → Bool)

/-- An identifier that needs no quotes at a place of a dotted name, where some words are
reserved. -/
def Bare (place : Nat) (part : List Char) : Prop :=
  (part.head?.any isIdentStart = true ∧ part.all isIdentChar = true) ∧
    reserved place part = false

instance (place : Nat) (part : List Char) : Decidable (Bare reserved place part) :=
  inferInstanceAs (Decidable (_ ∧ _))

/-- One part of a dotted name, and the text after it. -/
def readPart (place : Nat) (text : List Char) : Option (List Char × List Char) :=
  match text with
  | '"' :: text => readDelimited '"' text
  | text =>
    let part := text.takeWhile isIdentChar
    if Bare reserved place part then some (part, text.dropWhile isIdentChar) else none

/-- The parts of a dotted name from a place on, as many as may follow. -/
def readParts : Nat → Nat → List Char → Option (List (List Char))
  | 0, _, _ => none
  | more + 1, place, text =>
    match readPart reserved place text with
    | some (part, []) => some [part]
    | some (part, '.' :: rest) => (readParts more (place + 1) rest).map (part :: ·)
    | _ => none

/-- A dotted name of at most three parts. -/
def readName (text : List Char) : Option (List (List Char)) :=
  readParts reserved 3 0 text

end Reading

/-- Every part has a property at its place. -/
def EachAt (P : Nat → List Char → Prop) : Nat → List (List Char) → Prop
  | _, [] => True
  | place, part :: parts => P place part ∧ EachAt P (place + 1) parts

instance (P : Nat → List Char → Prop) [∀ place part, Decidable (P place part)] (place : Nat)
    (parts : List (List Char)) : Decidable (EachAt P place parts) :=
  match parts with
  | [] => inferInstanceAs (Decidable True)
  | part :: parts =>
    have := instDecidableEachAt P (place + 1) parts
    inferInstanceAs (Decidable (P place part ∧ EachAt P (place + 1) parts))

variable {reserved : Nat → List Char → Bool}

/-! ## Reading one part -/

theorem readPart_quote (place : Nat) (value : List Char) (h : rest.head? ≠ some '"') :
    readPart reserved place (delimited '"' value ++ rest) = some (value, rest) := by
  unfold delimited
  rw [List.cons_append, List.append_assoc, List.singleton_append]
  exact readDelimited_doubled value h

theorem isIdentChar_of_bare (h : Bare reserved place part) : ∀ c ∈ part, isIdentChar c = true :=
  List.all_eq_true.1 h.1.2

/-- A bare part is read up to the first character that no identifier has. -/
theorem readPart_bare (h : Bare reserved place part) (hrest : rest.head?.any isIdentChar = false) :
    readPart reserved place (part ++ rest) = some (part, rest) := by
  have hchars := isIdentChar_of_bare h
  have hstop : rest.takeWhile isIdentChar = [] ∧ rest.dropWhile isIdentChar = rest := by
    cases rest with
    | nil => exact ⟨rfl, rfl⟩
    | cons c rest =>
      have hc : ¬isIdentChar c = true := by simpa using hrest
      exact ⟨List.takeWhile_cons_of_neg hc, List.dropWhile_cons_of_neg hc⟩
  have htake : (part ++ rest).takeWhile isIdentChar = part := by
    rw [List.takeWhile_append_of_pos hchars, hstop.1, List.append_nil]
  have hdrop : (part ++ rest).dropWhile isIdentChar = rest := by
    rw [List.dropWhile_append_of_pos hchars, hstop.2]
  cases part with
  | nil => simp [Bare] at h
  | cons c part =>
    have hquote : c ≠ '"' := by
      rintro rfl
      exact absurd (hchars _ List.mem_cons_self) (by decide)
    unfold readPart
    split
    case h_1 heq =>
        rw [List.cons_append] at heq
        injection heq with hhead
        exact absurd hhead hquote
    case h_2 => rw [htake, if_pos h, hdrop]

theorem readPart_cases (h : readPart reserved place text = some (part, rest)) :
    (text = part ++ rest ∧ Bare reserved place part) ∨ part.length + rest.length < text.length := by
  unfold readPart at h
  split at h
  case h_1 text =>
      refine Or.inr ?_
      have hlength := length_of_readDelimited h
      rw [List.length_cons]
      omega
  case h_2 =>
      dsimp only at h
      split at h
      case isTrue hbare =>
          cases h
          exact Or.inl ⟨(List.takeWhile_append_dropWhile).symm, hbare⟩
      case isFalse => cases h

/-! ## Reading a dotted name -/

/-- Parts that can be read at their places can be read with points between them. -/
theorem readParts_intercalate {P : Nat → List Char → Prop} {write : List Char → List Char}
    (hread : ∀ place part rest, P place part → rest = [] ∨ rest.head? = some '.' →
      readPart reserved place (write part ++ rest) = some (part, rest)) (hne : parts ≠ [])
    {more : Nat} (hmore : parts.length ≤ more) (h : EachAt P place parts) :
    readParts reserved more place (List.intercalate ['.'] (parts.map write)) = some parts := by
  induction parts generalizing more place with
  | nil => exact absurd rfl hne
  | cons part parts ih =>
    obtain ⟨more, rfl⟩ : ∃ k, more = k + 1 := ⟨more - 1, by simp at hmore; omega⟩
    cases parts with
    | nil =>
      have hpart := hread place part [] h.1 (Or.inl rfl)
      rw [List.append_nil] at hpart
      rw [List.map_singleton, List.intercalate_singleton, readParts, hpart]
    | cons next parts =>
      have hrest := ih (List.cons_ne_nil _ _) (Nat.le_of_succ_le_succ hmore) h.2
      have hpart := hread place part
        ('.' :: List.intercalate ['.'] ((next :: parts).map write)) h.1 (Or.inr rfl)
      rw [List.map_cons] at hrest hpart
      rw [List.map_cons, List.map_cons, List.intercalate_cons_cons, List.append_assoc,
        List.singleton_append, readParts, hpart]
      simp only [hrest, Option.map_some]

/-- A name is read from its parts joined when they are bare, and else from a longer text. -/
theorem readParts_cases {more : Nat} (h : readParts reserved more place text = some parts) :
    parts ≠ [] ∧
      ((text = List.intercalate ['.'] parts ∧ EachAt (Bare reserved) place parts) ∨
        (List.intercalate ['.'] parts).length < text.length) := by
  induction more generalizing place text parts with
  | zero => cases h
  | succ more ih =>
    rw [readParts] at h
    split at h
    case h_1 part hpart =>
        cases h
        refine ⟨List.cons_ne_nil _ _, ?_⟩
        rw [List.intercalate_singleton]
        rcases readPart_cases hpart with ⟨htext, hbare⟩ | hlength
        · exact Or.inl ⟨htext.trans (List.append_nil part), hbare, trivial⟩
        · exact Or.inr hlength
    case h_2 part rest hpart =>
        obtain ⟨parts, hparts, rfl⟩ := Option.map_eq_some_iff.1 h
        refine ⟨List.cons_ne_nil _ _, ?_⟩
        obtain ⟨hne, hrest⟩ := ih hparts
        obtain ⟨next, parts, rfl⟩ := List.exists_cons_of_ne_nil hne
        rw [List.intercalate_cons_cons]
        rcases readPart_cases hpart with ⟨rfl, hbare⟩ | hlength
        · rcases hrest with ⟨rfl, heach⟩ | hlength
          · refine Or.inl ⟨?_, hbare, heach⟩
            rw [List.append_assoc, List.singleton_append]
          · refine Or.inr ?_
            simp only [List.length_append, List.length_cons, List.length_nil]
            omega
        · refine Or.inr ?_
          simp only [List.length_append, List.length_cons, List.length_nil] at hlength ⊢
          rcases hrest with ⟨rfl, -⟩ | hrest <;> omega
    case h_3 => cases h

namespace Relation

variable (relation : Relation)

theorem path_ne_nil : relation.path ≠ [] := by
  unfold path
  split <;> exact List.cons_ne_nil _ _

theorem length_path_le : relation.path.length ≤ 3 := by
  unfold path
  split <;> simp

theorem sql_eq : relation.sql = List.intercalate ['.'] (relation.path.map (delimited '"')) := by
  obtain ⟨_ | catalog, schema, table⟩ := relation <;> simp [sql, path, quoteIdentifier]

theorem toList_display_eq : relation.display.toList = List.intercalate ['.'] relation.path := by
  obtain ⟨_ | catalog, schema, table⟩ := relation <;> simp [display, path]

theorem readName_sql : readName reserved relation.sql = some relation.path := by
  rw [sql_eq]
  have hall : ∀ place parts, EachAt (fun _ _ => True) place parts := by
    intro place parts
    induction parts generalizing place with
    | nil => trivial
    | cons part parts ih => exact ⟨trivial, ih _⟩
  refine readParts_intercalate ?_ relation.path_ne_nil relation.length_path_le (hall _ _)
  intro place part rest _ hrest
  apply readPart_quote
  rcases hrest with rfl | hhead
  · simp
  · rw [hhead]
    decide

/-- No identifier of the relation needs quotes. -/
def IsBare (reserved : Nat → List Char → Bool) (relation : Relation) : Prop :=
  EachAt (Bare reserved) 0 relation.path

instance (reserved : Nat → List Char → Bool) (relation : Relation) :
    Decidable (relation.IsBare reserved) :=
  inferInstanceAs (Decidable (EachAt _ _ _))

/-- The display form names the relation exactly when no identifier needs quotes. -/
theorem readName_display_iff :
    readName reserved relation.display.toList = some relation.path ↔ relation.IsBare reserved := by
  rw [toList_display_eq]
  constructor
  · intro h
    rcases (readParts_cases h).2 with ⟨-, hbare⟩ | hlength
    · exact hbare
    · exact absurd hlength (Nat.lt_irrefl _)
  · intro h
    have hread : readParts reserved 3 0 (List.intercalate ['.'] (relation.path.map id)) =
        some relation.path :=
      readParts_intercalate ?_ relation.path_ne_nil relation.length_path_le h
    · rwa [List.map_id] at hread
    · intro place part rest hbare hrest
      apply readPart_bare hbare
      rcases hrest with rfl | hhead
      · rfl
      · rw [hhead]
        decide

end Relation

end PhloTransform.Core
