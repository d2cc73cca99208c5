import Mathlib.Algebra.GroupWithZero.Nat
import Mathlib.Data.List.Basic
import Mathlib.Algebra.Order.BigOperators.Group.List
import Mathlib.Algebra.Order.Group.Nat
import Mathlib.Tactic.Common

/-!
# Texts made of lines

Lines that are each ended by a newline.  The text determines lines that hold no newline,
and it is longer than the text of any selection of these lines.

Main results:

- Theorem `unlines_inj`: lines without newlines are told apart by their text.
- Theorem `length_unlines_le`: a selection of the lines has no longer a text.
-/

namespace PhloTransform.Library

variable {lines lines' : List String}

theorem cut_inj {α : Type*} {stop : α} {a b s t : List α} (ha : stop ∉ a) (hb : stop ∉ b)
    (h : a ++ stop :: s = b ++ stop :: t) : a = b ∧ s = t := by
  induction a generalizing b with
  | nil =>
    cases b with
    | nil => exact ⟨rfl, List.tail_eq_of_cons_eq h⟩
    | cons c b =>
      obtain rfl : stop = c := List.head_eq_of_cons_eq h
      exact absurd (List.mem_cons_self ..) hb
  | cons c a ih =>
    cases b with
    | nil =>
      obtain rfl : c = stop := List.head_eq_of_cons_eq h
      exact absurd (List.mem_cons_self ..) ha
    | cons d b =>
      simp only [List.cons_append, List.cons.injEq, List.mem_cons, not_or] at h ha hb
      obtain ⟨hab, hst⟩ := ih ha.2 hb.2 h.2
      exact ⟨by rw [h.1, hab], hst⟩

def unlines (lines : List String) : String :=
  String.join (lines.map fun line => line ++ "\n")

theorem toList_unlines (lines : List String) :
    (unlines lines).toList = lines.flatMap fun line => line.toList ++ ['\n'] := by
  simp [unlines, String.toList_join, List.flatMap_map]

theorem length_unlines (lines : List String) :
    (unlines lines).length = (lines.map fun line => line.length + 1).sum := by
  rw [unlines, String.length_join, List.map_map]
  congr 1
  apply List.map_congr_left
  intro line _
  simp only [Function.comp_apply, String.length_append]
  rfl

theorem unlines_inj (h : ∀ line ∈ lines, '\n' ∉ line.toList)
    (h' : ∀ line ∈ lines', '\n' ∉ line.toList) (heq : unlines lines = unlines lines') :
    lines = lines' := by
  have htext : (lines.flatMap fun line => line.toList ++ ['\n']) =
      lines'.flatMap fun line => line.toList ++ ['\n'] := by
    rw [← toList_unlines, ← toList_unlines, heq]
  clear heq
  induction lines generalizing lines' with
  | nil =>
    cases lines' with
    | nil => rfl
    | cons line' lines' => simp at htext
  | cons line lines ih =>
    cases lines' with
    | nil => simp at htext
    | cons line' lines' =>
      rw [List.forall_mem_cons] at h h'
      simp only [List.flatMap_cons, List.append_assoc, List.singleton_append] at htext
      obtain ⟨hline, hrest⟩ := cut_inj h.1 h'.1 htext
      rw [String.toList_injective hline, ih h.2 h'.2 hrest]

theorem length_unlines_le (h : List.Subperm lines lines') :
    (unlines lines).length ≤ (unlines lines').length := by
  rw [length_unlines, length_unlines]
  obtain ⟨middle, hperm, hsub⟩ := h
  rw [← (hperm.map _).sum_eq]
  exact (hsub.map _).sum_le_sum fun _ _ => Nat.zero_le _

end PhloTransform.Library
