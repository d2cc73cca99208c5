import Mathlib.Data.List.Basic
import Mathlib.Data.String.Basic
import Mathlib.Tactic.Common

/-!
# Histories with stamps

An object is changed by one write after another, and shows a new stamp after each.  A
reader sees stamps only.  Because no stamp comes back, a stamp tells which write left it,
and an object that shows the stamp of an earlier reading has not been written since.

Main results:

- Theorem `Stamps.head?_of_wrote_current`: the write that a current stamp names is the
  last one.
- Theorem `Stamps.eq_nil_of_current_eq`: an unchanged stamp means no write in between.
-/

namespace PhloTransform.Library

/-- The stamp of an object by the number of its writes so far. -/
structure Stamps (Stamp : Type*) where
  stamp : Nat → Stamp
  injective : Function.Injective stamp

namespace Stamps

variable {Stamp W : Type*} (stamps : Stamps Stamp)
variable {history : List W}

/-- The stamp after a history of writes, the latest first. -/
def current (history : List W) : Stamp :=
  stamps.stamp history.length

def Wrote (history : List W) (stamp : Stamp) (w : W) : Prop :=
  ∃ newer older, history = newer ++ w :: older ∧ stamp = stamps.current (w :: older)

variable {stamps}

theorem wrote_current (w : W) (older : List W) :
    stamps.Wrote (w :: older) (stamps.current (w :: older)) w :=
  ⟨[], older, rfl, rfl⟩

theorem Wrote.append {stamp : Stamp} {w : W} (h : stamps.Wrote history stamp w) (later : List W) :
    stamps.Wrote (later ++ history) stamp w := by
  obtain ⟨newer, older, rfl, hstamp⟩ := h
  exact ⟨later ++ newer, older, by simp, hstamp⟩

theorem eq_nil_of_current_eq {newer older : List W}
    (h : stamps.current (newer ++ older) = stamps.current older) : newer = [] := by
  have hlength := stamps.injective h
  rw [List.length_append] at hlength
  apply List.eq_nil_of_length_eq_zero
  omega

/-- The write that a current stamp names is the last one. -/
theorem head?_of_wrote_current {w : W} (h : stamps.Wrote history (stamps.current history) w) :
    history.head? = some w := by
  obtain ⟨newer, older, rfl, hstamp⟩ := h
  obtain rfl := eq_nil_of_current_eq hstamp
  rfl

/-- Stamps that count the writes in strokes. -/
def tally : Stamps String where
  stamp n := String.ofList (List.replicate n '1')
  injective := by
    intro a b h
    have hlength := congrArg (fun text : String => text.toList.length) h
    simpa using hlength

end Stamps
end PhloTransform.Library
