import Mathlib.Data.List.SplitOn
import Mathlib.Tactic.Common

/-!
# Fields between separators

A text is split into fields at its separators.

Main results:

- Theorem `splitOnP_intercalate`: fields without a separator are read back.
- Theorem `not_of_mem_splitOnP`: no field holds a separator.
-/

namespace PhloTransform.Library

variable {α : Type*} {p : α → Bool} {sep : α}
variable {text field : List α}

theorem not_of_mem_splitOnP (h : field ∈ text.splitOnP p) : ∀ c ∈ field, p c = false := by
  induction text generalizing field with
  | nil =>
    rw [List.splitOnP_nil, List.mem_singleton] at h
    rw [h]
    exact fun c hc => nomatch hc
  | cons a text ih =>
    rw [List.splitOnP_cons] at h
    split at h
    · rcases List.mem_cons.1 h with rfl | h
      · exact fun c hc => nomatch hc
      · exact ih h
    · next hsep =>
        cases hfields : text.splitOnP p with
        | nil => exact absurd hfields (List.splitOnP_ne_nil p text)
        | cons first others =>
          rw [hfields] at h ih
          rcases List.mem_cons.1 h with rfl | h
          · intro c hc
            rcases List.mem_cons.1 hc with rfl | hc
            · simpa using hsep
            · exact ih List.mem_cons_self c hc
          · exact ih (List.mem_cons_of_mem first h)

theorem mem_of_mem_splitOnP (h : field ∈ text.splitOnP p) : ∀ c ∈ field, c ∈ text := by
  induction text generalizing field with
  | nil =>
    rw [List.splitOnP_nil, List.mem_singleton] at h
    rw [h]
    exact fun c hc => nomatch hc
  | cons a text ih =>
    rw [List.splitOnP_cons] at h
    split at h
    · rcases List.mem_cons.1 h with rfl | h
      · exact fun c hc => nomatch hc
      · exact fun c hc => List.mem_cons_of_mem a (ih h c hc)
    · cases hfields : text.splitOnP p with
      | nil => exact absurd hfields (List.splitOnP_ne_nil p text)
      | cons first others =>
        rw [hfields] at h ih
        rcases List.mem_cons.1 h with rfl | h
        · intro c hc
          rcases List.mem_cons.1 hc with rfl | hc
          · exact List.mem_cons_self
          · exact List.mem_cons_of_mem a (ih List.mem_cons_self c hc)
        · exact fun c hc => List.mem_cons_of_mem a (ih (List.mem_cons_of_mem first h) c hc)

theorem splitOnP_intercalate (hsep : p sep = true) {fields : List (List α)} (hne : fields ≠ [])
    (h : ∀ field ∈ fields, ∀ c ∈ field, p c = false) :
    (List.intercalate [sep] fields).splitOnP p = fields := by
  induction fields with
  | nil => exact absurd rfl hne
  | cons field fields ih =>
    rw [List.forall_mem_cons] at h
    cases fields with
    | nil =>
      rw [List.intercalate_singleton]
      exact List.splitOnP_eq_singleton h.1
    | cons next fields =>
      rw [List.intercalate_cons_cons, List.append_assoc, List.singleton_append,
        List.splitOnP_append_cons_of_forall_mem h.1 sep hsep,
        ih (List.cons_ne_nil _ _) h.2]

end PhloTransform.Library
