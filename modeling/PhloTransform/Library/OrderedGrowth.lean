import Mathlib.Algebra.Order.Group.Multiset
import Mathlib.Data.Multiset.Filter
import Mathlib.Data.Multiset.Lattice
import Mathlib.Tactic.Common

/-!
# Bags that grow in the order of a key

A bag that only grows by elements whose keys are above all its keys can be followed from a
frontier: the elements above the greatest key followed so far are the ones that are new.
The least key stands for a missing one, and nothing is above the frontier without a key.

Main results:

- Theorem `filter_above_greatest`: above the greatest key of a bag is what came later.
- Theorem `le_add_above`: whoever holds the bag and adds what is above a bound that the bag
  reaches holds what came later too.
-/

namespace PhloTransform.Library

variable {α κ : Type*} [LinearOrder κ] [OrderBot κ] {key : α → κ}

/-- The greatest key of a bag; the least key when there is none. -/
def greatest (key : α → κ) (bag : Multiset α) : κ :=
  (bag.map key).sup

def above (key : α → κ) (bound : κ) (bag : Multiset α) : Multiset α :=
  bag.filter fun a => bound < key a

/-- What came later is above all that was seen. -/
def InOrder (key : α → κ) (seen later : Multiset α) : Prop :=
  ∀ a ∈ later, greatest key seen < key a

instance (seen later : Multiset α) : Decidable (InOrder key seen later) :=
  inferInstanceAs (Decidable (∀ a ∈ later, greatest key seen < key a))

section Greatest

variable {seen later more : Multiset α} {a : α}

theorem le_greatest (h : a ∈ seen) : key a ≤ greatest key seen :=
  Multiset.le_sup (Multiset.mem_map_of_mem key h)

theorem greatest_mono (h : seen ⊆ later) : greatest key seen ≤ greatest key later := by
  apply Multiset.sup_le.2
  intro k hk
  obtain ⟨a, ha, rfl⟩ := Multiset.mem_map.1 hk
  exact le_greatest (h ha)

theorem greatest_add (seen later : Multiset α) :
    greatest key (seen + later) = greatest key seen ⊔ greatest key later := by
  rw [greatest, Multiset.map_add, Multiset.sup_add]
  rfl

/-! ## Growth -/

theorem inOrder_zero (seen : Multiset α) : InOrder key seen 0 := by
  intro a ha
  simp at ha

theorem InOrder.add (h : InOrder key seen later) (hmore : InOrder key (seen + later) more) :
    InOrder key seen (later + more) := by
  intro a ha
  rcases Multiset.mem_add.1 ha with ha | ha
  · exact h a ha
  · apply lt_of_le_of_lt _ (hmore a ha)
    rw [greatest_add]
    exact le_sup_left

/-! ## Following a frontier -/

/-- Above the greatest key of what was seen is what came later. -/
theorem filter_above_greatest (h : InOrder key seen later) :
    above key (greatest key seen) (seen + later) = later := by
  have hseen : above key (greatest key seen) seen = 0 := by
    apply Multiset.filter_eq_nil.2
    intro a ha
    exact not_lt.2 (le_greatest ha)
  have hlater : above key (greatest key seen) later = later := by
    apply Multiset.filter_eq_self.2
    exact h
  rw [above, Multiset.filter_add]
  change above key _ seen + above key _ later = later
  rw [hseen, hlater, zero_add]

/-- A bag that holds what was seen, together with what is above a bound that the seen part
reaches, holds everything. -/
theorem le_add_above {held : Multiset α} {bound : κ} (h : InOrder key seen later)
    (hheld : seen ≤ held) (hbound : bound ≤ greatest key seen) :
    seen + later ≤ held + above key bound (seen + later) := by
  apply add_le_add hheld
  have hlater : above key bound later = later := by
    apply Multiset.filter_eq_self.2
    intro a ha
    exact lt_of_le_of_lt hbound (h a ha)
  calc later = above key bound later := hlater.symm
    _ ≤ above key bound (seen + later) := by
        apply Multiset.filter_le_filter
        exact Multiset.le_add_left later seen

omit [OrderBot κ] in
theorem mem_of_mem_above {bound : κ} (h : a ∈ above key bound seen) : a ∈ seen :=
  Multiset.mem_of_mem_filter h

end Greatest

end PhloTransform.Library
