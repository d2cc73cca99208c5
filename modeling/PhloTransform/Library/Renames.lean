import Mathlib.Data.List.Dedup
import Mathlib.Data.List.Sort
import Mathlib.Tactic.Common

/-!
# One-to-one renames

Two sides have names, and a list of pairs declares which new name an old one was given.  A
declaration resolves when its new name is on the new side alone, its old name is on the old
side, and no other declaration claims the old name.

Main results:

- Theorem `mem_resolvedRenames_iff`: what a resolved declaration is.
- Theorem `resolvedRenames_unique`: two resolved declarations of one old name are one.
-/

namespace PhloTransform.Library

section Renames

variable {Name : Type*} [DecidableEq Name]

/-- The new names that claim an old one. -/
def claimants (renames : List (Name × Name)) (old : Name) : List Name :=
  (renames.filter fun rename => decide (rename.2 = old)).map Prod.fst

/-- More than one new name claims the old one. -/
def isAmbiguous (renames : List (Name × Name)) (old : Name) : Bool :=
  decide (1 < (claimants renames old).length)

/-- The old names that are claimed more than once, in order. -/
def ambiguousNames [LinearOrder Name] (renames : List (Name × Name)) : List Name :=
  ((renames.map Prod.snd).dedup.insertionSort (· ≤ ·)).filter (isAmbiguous renames)

/-- The declarations that turn a name of the old side into one of the new side alone. -/
def resolvedRenames (old new : List Name) (renames : List (Name × Name)) : List (Name × Name) :=
  renames.filter fun rename =>
    !isAmbiguous renames rename.2 && decide (rename.1 ∈ new) && decide (rename.1 ∉ old) &&
      decide (rename.2 ∈ old)

variable {renames : List (Name × Name)} {old new : List Name} {a a' b : Name}

theorem mem_claimants_iff : a ∈ claimants renames b ↔ (a, b) ∈ renames := by
  simp [claimants]

theorem mem_ambiguousNames_iff [LinearOrder Name] :
    b ∈ ambiguousNames renames ↔ isAmbiguous renames b = true := by
  rw [ambiguousNames, List.mem_filter, List.mem_insertionSort, List.mem_dedup]
  constructor
  · exact And.right
  · intro h
    refine ⟨?_, h⟩
    have hsome : claimants renames b ≠ [] := by
      intro hnone
      rw [isAmbiguous, hnone, decide_eq_true_iff] at h
      exact absurd h (by simp)
    obtain ⟨a, ha⟩ := List.exists_mem_of_ne_nil _ hsome
    exact List.mem_map_of_mem (mem_claimants_iff.1 ha)

theorem mem_resolvedRenames_iff :
    (a, b) ∈ resolvedRenames old new renames ↔
      (a, b) ∈ renames ∧ isAmbiguous renames b = false ∧ a ∈ new ∧ a ∉ old ∧ b ∈ old := by
  simp only [resolvedRenames, List.mem_filter, Bool.and_eq_true, Bool.not_eq_true',
    decide_eq_true_eq, and_assoc]

theorem resolvedRenames_unique (h : (a, b) ∈ resolvedRenames old new renames)
    (h' : (a', b) ∈ resolvedRenames old new renames) : a = a' := by
  rw [mem_resolvedRenames_iff] at h h'
  have ha := mem_claimants_iff.2 h.1
  have ha' := mem_claimants_iff.2 h'.1
  have hone : (claimants renames b).length ≤ 1 := by
    simpa [isAmbiguous] using h.2.1
  match hclaimants : claimants renames b with
  | [] =>
    rw [hclaimants] at ha
    cases ha
  | [name] =>
    rw [hclaimants, List.mem_singleton] at ha ha'
    rw [ha, ha']
  | first :: second :: rest =>
    rw [hclaimants] at hone
    simp at hone

theorem lookup_resolvedRenames_eq_none (h : a ∈ old) :
    (resolvedRenames old new renames).lookup a = none := by
  rw [List.lookup_eq_none_iff]
  intro rename hrename
  have hresolved := mem_resolvedRenames_iff.1 hrename
  rw [bne_iff_ne]
  intro hsame
  exact hresolved.2.2.2.1 (hsame ▸ h)

end Renames

end PhloTransform.Library
