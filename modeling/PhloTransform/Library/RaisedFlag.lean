import Mathlib.Data.List.Basic

/-!
# A flag that others raise

Others may raise a flag while a process works; the process looks at the flag now and then.  The
order of these events decides whether the process ever finds the flag raised.

Main results:

- Theorem `noticed_concat_look`, `noticed_concat`: noticing, event by event.
-/

namespace PhloTransform.Library

/-- What happens to a flag: it is raised, the process looks, or the process works. -/
inductive Mark where
  | raise
  | look
  | work
deriving DecidableEq

/-- The process looked at the flag after it was raised. -/
def Noticed (marks : List Mark) : Prop :=
  ∃ before after, marks = before ++ .raise :: after ∧ .look ∈ after

variable {marks : List Mark}

theorem not_noticed_nil : ¬ Noticed [] := by
  rintro ⟨before, after, h, -⟩
  simp at h

theorem Noticed.raised (h : Noticed marks) : .raise ∈ marks := by
  obtain ⟨before, after, rfl, -⟩ := h
  simp

theorem Noticed.concat (h : Noticed marks) (mark : Mark) : Noticed (marks ++ [mark]) := by
  obtain ⟨before, after, rfl, hlook⟩ := h
  exact ⟨before, after ++ [mark], by simp, List.mem_append_left _ hlook⟩

theorem noticed_concat_look : Noticed (marks ++ [.look]) ↔ .raise ∈ marks := by
  constructor
  · rintro ⟨before, after, h, hlook⟩
    have hne : after ≠ [] := List.ne_nil_of_mem hlook
    rw [← List.dropLast_append_getLast hne, ← List.cons_append, ← List.append_assoc] at h
    rw [(List.append_inj' h rfl).1]
    simp
  · intro h
    obtain ⟨before, after, rfl⟩ := List.append_of_mem h
    exact ⟨before, after ++ [.look], by simp, by simp⟩

theorem noticed_concat {mark : Mark} (hmark : mark ≠ .look) :
    Noticed (marks ++ [mark]) ↔ Noticed marks := by
  refine ⟨?_, fun h => h.concat mark⟩
  rintro ⟨before, after, h, hlook⟩
  have hne : after ≠ [] := List.ne_nil_of_mem hlook
  rw [← List.dropLast_append_getLast hne, ← List.cons_append, ← List.append_assoc] at h
  obtain ⟨hmarks, hlast⟩ := List.append_inj' h rfl
  refine ⟨before, after.dropLast, hmarks, ?_⟩
  rw [← List.dropLast_append_getLast hne, List.mem_append, List.mem_singleton] at hlook
  rcases hlook with hlook | hlook
  · exact hlook
  · rw [← hlook, List.cons.injEq] at hlast
    exact absurd hlast.1 hmark

end PhloTransform.Library
