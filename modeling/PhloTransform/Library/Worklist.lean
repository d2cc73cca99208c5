import Mathlib.Data.List.Nodup
import Mathlib.Data.List.Perm.Subperm
import Mathlib.Logic.Relation
import Mathlib.Tactic.Common

/-!
# Closing a set with a work list

The items still to be followed are kept on a stack.  Every round takes one off and
pushes those of its neighbours that were not included before, so an item is pushed
once and a round for every item that can be included is enough.

Main results:

- Theorem `mem_closeFrom`: what is included is what the seed reaches.
- Theorem `closeFrom_least`: it is the least closed set around the seed.
-/

namespace PhloTransform.Library

variable {Node : Type*} [DecidableEq Node] (next : Node → List Node)
variable {seed bound : List Node}

/-- Follow the neighbours of a stack of items. -/
def closeFrom : Nat → List Node → List Node → List Node
  | 0, included, _ => included
  | _ + 1, included, [] => included
  | fuel + 1, included, id :: frontier =>
    let new := (next id).filter fun neighbour => decide (neighbour ∉ included)
    closeFrom fuel (included ++ new) (new.reverse ++ frontier)

def Next (a b : Node) : Prop :=
  b ∈ next a

/-- A set that contains the neighbours of its items. -/
def ClosedUnder (S : Node → Prop) : Prop :=
  ∀ a, S a → ∀ b ∈ next a, S b

/-- What the rounds maintain: what is included comes from the seed and lies within a
bound, and only items of the stack may have neighbours outside. -/
structure WorklistInv (seed bound included frontier : List Node) : Prop where
  nodup : included.Nodup
  bounded : ∀ a ∈ included, a ∈ bound
  seed_included : ∀ a ∈ seed, a ∈ included
  reached : ∀ a ∈ included, ∃ s ∈ seed, Relation.ReflTransGen (Next next) s a
  stacked : ∀ a ∈ frontier, a ∈ included
  followed : ∀ a ∈ included, a ∉ frontier → ∀ b ∈ next a, b ∈ included

variable {next}

omit [DecidableEq Node] in
theorem ClosedUnder.of_reaches {S : Node → Prop} (hclosed : ClosedUnder next S) {s a : Node}
    (hs : S s) (h : Relation.ReflTransGen (Next next) s a) : S a := by
  induction h with
  | refl => exact hs
  | tail _ hstep ih => exact hclosed _ ih _ hstep

theorem WorklistInv.step {included frontier : List Node} {id : Node}
    (h : WorklistInv next seed bound included (id :: frontier)) (hnext : (next id).Nodup)
    (hwithin : ∀ b ∈ next id, b ∈ bound) :
    let new := (next id).filter fun neighbour => decide (neighbour ∉ included)
    WorklistInv next seed bound (included ++ new) (new.reverse ++ frontier) := by
  have hid : id ∈ included := h.stacked id List.mem_cons_self
  have hnew : ∀ a, a ∈ (next id).filter (fun neighbour => decide (neighbour ∉ included)) ↔
      a ∈ next id ∧ a ∉ included := by
    intro a
    rw [List.mem_filter, decide_eq_true_eq]
  refine ⟨?_, ?_, ?_, ?_, ?_, ?_⟩
  · refine List.nodup_append.2 ⟨h.nodup, hnext.filter _, ?_⟩
    rintro a ha b hb rfl
    exact ((hnew a).1 hb).2 ha
  · intro a ha
    rcases List.mem_append.1 ha with hold | ha
    · exact h.bounded a hold
    · exact hwithin a ((hnew a).1 ha).1
  · exact fun a ha => List.mem_append_left _ (h.seed_included a ha)
  · intro a ha
    rcases List.mem_append.1 ha with hold | ha
    · exact h.reached a hold
    · obtain ⟨s, hs, hreach⟩ := h.reached id hid
      exact ⟨s, hs, hreach.tail ((hnew a).1 ha).1⟩
  · intro a ha
    rcases List.mem_append.1 ha with ha | hold
    · exact List.mem_append_right _ (List.mem_reverse.1 ha)
    · exact List.mem_append_left _ (h.stacked a (List.mem_cons_of_mem _ hold))
  · intro a ha hout b hb
    rw [List.mem_append, List.mem_reverse, not_or] at hout
    rw [List.mem_append]
    have hold : a ∈ included := (List.mem_append.1 ha).resolve_right hout.1
    by_cases hb' : b ∈ included
    · exact Or.inl hb'
    · by_cases haid : a = id
      · exact Or.inr ((hnew b).2 ⟨haid ▸ hb, hb'⟩)
      · refine Or.inl (h.followed a hold ?_ b hb)
        rw [List.mem_cons, not_or]
        exact ⟨haid, hout.2⟩

/-- With a round for every item of the stack and for every item still to be included, the
stack runs empty. -/
theorem WorklistInv.closeFrom {seed bound included frontier : List Node} (fuel : Nat)
    (h : WorklistInv next seed bound included frontier)
    (hnext : ∀ a, (next a).Nodup) (hwithin : ∀ a, ∀ b ∈ next a, b ∈ bound)
    (hfuel : frontier.length + bound.length ≤ fuel + included.length) :
    WorklistInv next seed bound (closeFrom next fuel included frontier) [] := by
  induction fuel generalizing included frontier with
  | zero =>
    have hlength := h.nodup.length_le_of_subset h.bounded
    have hempty : frontier = [] := List.length_eq_zero_iff.1 (by omega)
    exact hempty ▸ h
  | succ fuel ih =>
    cases frontier with
    | nil => exact h
    | cons id frontier =>
      refine ih (h.step (hnext id) (hwithin id)) ?_
      rw [List.length_append, List.length_append, List.length_reverse]
      rw [List.length_cons] at hfuel
      omega

theorem mem_closeFrom {fuel : Nat} (hseed : seed.Nodup) (hnext : ∀ a, (next a).Nodup)
    (hwithin : ∀ a, ∀ b ∈ next a, b ∈ bound) (hseedBound : ∀ a ∈ seed, a ∈ bound)
    (hfuel : bound.length ≤ fuel) {a : Node} :
    a ∈ closeFrom next fuel seed seed.reverse ↔
      ∃ s ∈ seed, Relation.ReflTransGen (Next next) s a := by
  have hstart : WorklistInv next seed bound seed seed.reverse :=
    ⟨hseed, hseedBound, fun _ hs => hs, fun s hs => ⟨s, hs, .refl⟩,
      fun s hs => List.mem_reverse.1 hs, fun s hs hout => absurd (List.mem_reverse.2 hs) hout⟩
  have hend := hstart.closeFrom fuel hnext hwithin
    (by rw [List.length_reverse]; omega)
  constructor
  · exact hend.reached a
  · rintro ⟨s, hs, hreach⟩
    have hclosed : ClosedUnder next fun b => b ∈ closeFrom next fuel seed seed.reverse :=
      fun b hb c hc => hend.followed b hb List.not_mem_nil c hc
    exact hclosed.of_reaches (hend.seed_included s hs) hreach

theorem closeFrom_least {fuel : Nat} (hseed : seed.Nodup) (hnext : ∀ a, (next a).Nodup)
    (hwithin : ∀ a, ∀ b ∈ next a, b ∈ bound) (hseedBound : ∀ a ∈ seed, a ∈ bound)
    (hfuel : bound.length ≤ fuel) :
    (∀ a ∈ seed, a ∈ closeFrom next fuel seed seed.reverse) ∧
      ClosedUnder next (fun a => a ∈ closeFrom next fuel seed seed.reverse) ∧
      ∀ S : Node → Prop, (∀ a ∈ seed, S a) → ClosedUnder next S →
        ∀ a ∈ closeFrom next fuel seed seed.reverse, S a := by
  have hiff : ∀ a, a ∈ closeFrom next fuel seed seed.reverse ↔
      ∃ s ∈ seed, Relation.ReflTransGen (Next next) s a := fun a =>
    mem_closeFrom hseed hnext hwithin hseedBound hfuel
  refine ⟨fun a ha => (hiff a).2 ⟨a, ha, .refl⟩, ?_, ?_⟩
  · intro a ha b hb
    obtain ⟨s, hs, hreach⟩ := (hiff a).1 ha
    exact (hiff b).2 ⟨s, hs, hreach.tail hb⟩
  · intro S hS hclosed a ha
    obtain ⟨s, hs, hreach⟩ := (hiff a).1 ha
    exact hclosed.of_reaches (hS s hs) hreach

end PhloTransform.Library
