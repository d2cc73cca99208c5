import Mathlib.Data.List.Infix
import Mathlib.Tactic.Common

/-!
# The first occurrence of a mark

A text is cut at the first occurrence of a mark.

Main results:

- Theorem `cut_eq_some_iff`: the cut is where the mark occurs first.
-/

namespace PhloTransform.Library

variable {α : Type*} [DecidableEq α]

/-- What precedes the first occurrence of a mark, and what follows it. -/
def cut (mark : List α) : List α → Option (List α × List α)
  | [] => if mark = [] then some ([], []) else none
  | a :: rest =>
    if mark.isPrefixOf (a :: rest) then some ([], (a :: rest).drop mark.length)
    else (cut mark rest).map fun parts => (a :: parts.1, parts.2)

variable {mark text before after : List α}

theorem cut_append (hmark : mark ≠ []) (rest : List α) :
    cut mark (mark ++ rest) = some ([], rest) := by
  cases mark with
  | nil => exact absurd rfl hmark
  | cons a mark =>
    rw [List.cons_append, cut, if_pos]
    · rw [← List.cons_append, List.drop_left]
    · rw [List.isPrefixOf_iff_prefix, ← List.cons_append]
      exact List.prefix_append _ _

theorem cut_cons {a : α} (h : ¬mark <+: a :: text) :
    cut mark (a :: text) = (cut mark text).map fun parts => (a :: parts.1, parts.2) := by
  rw [cut, if_neg (by rwa [List.isPrefixOf_iff_prefix])]

theorem eq_append_of_cut (hmark : mark ≠ []) (h : cut mark text = some (before, after)) :
    text = before ++ (mark ++ after) := by
  induction text generalizing before with
  | nil => simp [cut, hmark] at h
  | cons a text ih =>
    by_cases hprefix : mark <+: a :: text
    · obtain ⟨rest, hrest⟩ := hprefix
      rw [← hrest, cut_append hmark] at h
      cases h
      exact hrest.symm
    · rw [cut_cons hprefix] at h
      obtain ⟨⟨before', after'⟩, hcut, heq⟩ := Option.map_eq_some_iff.1 h
      cases heq
      rw [ih hcut, List.cons_append]

theorem length_lt_of_cut (hmark : mark ≠ []) (h : cut mark text = some (before, after)) :
    after.length < text.length := by
  have hlength := congrArg List.length (eq_append_of_cut hmark h)
  have hpos := List.length_pos_iff.2 hmark
  simp only [List.length_append] at hlength
  omega

omit [DecidableEq α] in
theorem prefix_append_dropLast {a : α} (h : mark <+: a :: before ++ (mark ++ after)) :
    mark <+: a :: before ++ mark.dropLast := by
  refine List.prefix_of_prefix_length_le h ?_ ?_
  · refine (List.prefix_append_right_inj _).2 ?_
    exact (List.dropLast_prefix mark).trans (List.prefix_append _ _)
  · simp only [List.length_append, List.length_cons, List.length_dropLast]
    omega

/-- The cut is at an occurrence of the mark that no other one precedes. -/
theorem cut_append_iff (hmark : mark ≠ []) :
    cut mark (before ++ (mark ++ after)) = some (before, after) ↔
      ¬mark <:+: before ++ mark.dropLast := by
  induction before with
  | nil =>
    refine iff_of_true (cut_append hmark after) fun hinfix => ?_
    have hle := hinfix.length_le
    have hpos := List.length_pos_iff.2 hmark
    simp only [List.nil_append, List.length_dropLast] at hle
    omega
  | cons a before ih =>
    by_cases hprefix : mark <+: a :: before ++ (mark ++ after)
    · refine iff_of_false (fun hcut => ?_) fun hnot => ?_
      · obtain ⟨rest, hrest⟩ := hprefix
        rw [← hrest, cut_append hmark] at hcut
        cases hcut
      · exact hnot (prefix_append_dropLast hprefix).isInfix
    · have hnot : ¬mark <+: a :: before ++ mark.dropLast := fun hshort => hprefix
        (hshort.trans ((List.prefix_append_right_inj _).2
          ((List.dropLast_prefix mark).trans (List.prefix_append _ _))))
      have hstep : cut mark (a :: (before ++ (mark ++ after))) =
          (cut mark (before ++ (mark ++ after))).map fun parts => (a :: parts.1, parts.2) :=
        cut_cons hprefix
      rw [List.cons_append, hstep, Option.map_eq_some_iff, List.cons_append,
        List.infix_cons_iff, not_or]
      constructor
      · rintro ⟨parts, hcut, heq⟩
        cases heq
        exact ⟨hnot, ih.1 hcut⟩
      · rintro ⟨-, hrest⟩
        exact ⟨(before, after), ih.2 hrest, rfl⟩

theorem exists_cut_append (hmark : mark ≠ []) (before after : List α) :
    ∃ before' after', cut mark (before ++ (mark ++ after)) = some (before', after') := by
  induction before with
  | nil => exact ⟨[], after, cut_append hmark after⟩
  | cons a before ih =>
    by_cases hprefix : mark <+: a :: before ++ (mark ++ after)
    · obtain ⟨rest, hrest⟩ := hprefix
      exact ⟨[], rest, by rw [← hrest, cut_append hmark]⟩
    · obtain ⟨before', after', hcut⟩ := ih
      have hstep : cut mark (a :: (before ++ (mark ++ after))) =
          (cut mark (before ++ (mark ++ after))).map fun parts => (a :: parts.1, parts.2) :=
        cut_cons hprefix
      exact ⟨a :: before', after', by rw [List.cons_append, hstep, hcut]; rfl⟩

end PhloTransform.Library
