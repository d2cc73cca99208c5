import Mathlib.Data.List.Basic
import Mathlib.Tactic.Common

/-!
# Logs of writes

A log is a list of writes that is replayed onto a state.  A condition on a write
and the state it is made in holds along a log when every write meets it.  A
process that is killed leaves the replay of a prefix of its log, and the logs of
processes that follow each other make up one log.

Main results:

- Theorem `Along.rel`: a reflexive and transitive relation that holds across every
  write holds across the log.
- Theorem `Along.between`: it holds between any two points of the log.
-/

namespace PhloTransform.Library

variable {State Op : Type*} {apply : State → Op → State}

/-- Every write of the log meets the condition in the state it is made in. -/
def Along (apply : State → Op → State) (P : State → Op → Prop) : State → List Op → Prop
  | _, [] => True
  | s, w :: ws => P s w ∧ Along apply P (apply s w) ws

namespace Along

variable {P : State → Op → Prop} {s : State} {ws : List Op}
variable {R : State → State → Prop}

@[simp]
theorem nil : Along apply P s [] :=
  trivial

theorem cons {w : Op} : Along apply P s (w :: ws) ↔ P s w ∧ Along apply P (apply s w) ws :=
  Iff.rfl

theorem append {ws' : List Op} :
    Along apply P s (ws ++ ws') ↔ Along apply P s ws ∧ Along apply P (ws.foldl apply s) ws' := by
  induction ws generalizing s with
  | nil => simp
  | cons w ws ih => rw [List.cons_append, cons, ih, cons, List.foldl_cons, and_assoc]

theorem take (h : Along apply P s ws) (n : Nat) : Along apply P s (ws.take n) := by
  rw [← List.take_append_drop n ws] at h
  exact (append.1 h).1

/-- A reflexive and transitive relation that holds across every write holds across
the log. -/
theorem rel (hrefl : ∀ s, R s s) (htrans : ∀ s m t, R s m → R m t → R s t)
    (hwrite : ∀ s w, P s w → R s (apply s w)) (h : Along apply P s ws) :
    R s (ws.foldl apply s) := by
  induction ws generalizing s with
  | nil => exact hrefl s
  | cons w ws ih =>
    obtain ⟨hw, hrest⟩ := h
    exact htrans _ _ _ (hwrite s w hw) (ih hrest)

/-- Such a relation holds between any two points of the log. -/
theorem between (hrefl : ∀ s, R s s) (htrans : ∀ s m t, R s m → R m t → R s t)
    (hwrite : ∀ s w, P s w → R s (apply s w)) {earlier later rest : List Op}
    (h : Along apply P s (earlier ++ later ++ rest)) :
    R (earlier.foldl apply s) ((earlier ++ later).foldl apply s) := by
  rw [List.foldl_append]
  exact rel hrefl htrans hwrite (append.1 (append.1 h).1).2

end Along

end PhloTransform.Library
