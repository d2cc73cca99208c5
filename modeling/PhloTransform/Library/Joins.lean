import Mathlib.Data.List.Nodup
import Mathlib.Tactic.Common

/-!
# Joins

Two tables are joined by a condition on a row of each.  An inner join has the joined pairs, and
a full outer join has also the rows of either side that no row of the other joins.

Main results:

- Theorem `countP_fullOuterJoin`: counting in a full outer join.
- Theorem `countP_innerJoin_swap`: an inner join counts the same from either side.
-/

namespace PhloTransform.Library

section Joins

variable {α β : Type*} (on : α → β → Bool) (left : List α) (right : List β)

/-! ## The joins -/

/-- The pairs of rows that the condition joins. -/
def innerJoin : List (α × β) :=
  left.flatMap fun a => (right.filter (on a)).map fun b => (a, b)

/-- The left rows that join no right row. -/
def alone : List α :=
  left.filter fun a => !right.any (on a)

/-- The joined pairs, and each row alone beside nulls. -/
def fullOuterJoin : List (Option α × Option β) :=
  (innerJoin on left right).map (fun pair => (some pair.1, some pair.2)) ++
    (alone on left right).map (fun a => (some a, none)) ++
    (alone (fun b a => on a b) right left).map fun b => (none, some b)

/-- Every left row joins at most one right row. -/
def JoinsOnce : Prop :=
  ∀ a ∈ left, right.countP (on a) ≤ 1

variable {on left right}

theorem mem_innerJoin {a : α} {b : β} :
    (a, b) ∈ innerJoin on left right ↔ a ∈ left ∧ b ∈ right ∧ on a b = true := by
  simp [innerJoin]

/-! ## Counting -/

theorem countP_fullOuterJoin (p : Option α × Option β → Bool) :
    (fullOuterJoin on left right).countP p =
      (innerJoin on left right).countP (fun pair => p (some pair.1, some pair.2)) +
        (alone on left right).countP (fun a => p (some a, none)) +
        (alone (fun b a => on a b) right left).countP fun b => p (none, some b) := by
  simp only [fullOuterJoin, List.countP_append, List.countP_map, Function.comp_def]

theorem countP_innerJoin_cons (a : α) (p : α × β → Bool) :
    (innerJoin on (a :: left) right).countP p =
      right.countP (fun b => on a b && p (a, b)) + (innerJoin on left right).countP p := by
  simp only [innerJoin, List.flatMap_cons, List.countP_append, List.countP_map, List.countP_filter,
    Function.comp_def, Bool.and_comm]

theorem countP_innerJoin_cons_right (b : β) (p : α × β → Bool) :
    (innerJoin on left (b :: right)).countP p =
      left.countP (fun a => on a b && p (a, b)) + (innerJoin on left right).countP p := by
  induction left with
  | nil => rfl
  | cons a left ih =>
    rw [countP_innerJoin_cons, countP_innerJoin_cons, ih, List.countP_cons, List.countP_cons]
    omega

theorem countP_innerJoin_swap (p : α × β → Bool) :
    (innerJoin on left right).countP p =
      (innerJoin (fun b a => on a b) right left).countP fun pair => p (pair.2, pair.1) := by
  induction left with
  | nil =>
    refine (List.countP_eq_zero.2 ?_).symm
    rintro ⟨b, a⟩ h
    exact absurd (mem_innerJoin.1 h).2.1 List.not_mem_nil
  | cons a left ih => rw [countP_innerJoin_cons, countP_innerJoin_cons_right, ih]

theorem countP_innerJoin_and (also : α → β → Bool) (p : α × β → Bool) :
    (innerJoin (fun a b => on a b && also a b) left right).countP p =
      (innerJoin on left right).countP fun pair => p pair && also pair.1 pair.2 := by
  induction left with
  | nil => rfl
  | cons a left ih =>
    rw [countP_innerJoin_cons, countP_innerJoin_cons, ih]
    congr 2
    funext b
    rw [Bool.and_assoc, Bool.and_comm (also a b)]

theorem countP_and_eq_iff {l : List α} {p q : α → Bool} :
    (l.countP fun a => p a && q a) = l.countP p ↔ ∀ a ∈ l, p a = true → q a = true := by
  have hfilter : (l.countP fun a => p a && q a) = (l.filter p).countP q := by
    rw [List.countP_filter]
    simp only [Bool.and_comm]
  rw [hfilter, List.countP_eq_length_filter (l := l) (p := p), List.countP_eq_length]
  simp only [List.mem_filter, and_imp]

/-! ## Rows that join at most one -/

/-- Rows of distinct keys are joined at most once by equality with them. -/
theorem joinsOnce_of_nodup {κ : Type*} [DecidableEq κ] {leftKey : α → κ} {rightKey : β → κ}
    (h : (right.map rightKey).Nodup) :
    JoinsOnce (fun a b => decide (leftKey a = rightKey b)) left right := by
  intro a _
  have hcount := List.nodup_iff_count_le_one.1 h (leftKey a)
  rw [List.count, List.countP_map] at hcount
  have heq : (fun b => decide (leftKey a = rightKey b)) =
      (fun key => key == leftKey a) ∘ rightKey := by
    funext b
    rw [Function.comp_apply, beq_eq_decide]
    exact decide_eq_decide.2 eq_comm
  change right.countP (fun b => decide (leftKey a = rightKey b)) ≤ 1
  rwa [heq]

theorem countP_eq_ite_any {l : List α} {p : α → Bool} (h : l.countP p ≤ 1) :
    l.countP p = if l.any p then 1 else 0 := by
  split
  · next hany =>
      obtain ⟨a, ha, hp⟩ := List.any_eq_true.1 hany
      have hpos : 0 < l.countP p := List.countP_pos_iff.2 ⟨a, ha, hp⟩
      omega
  · next hany =>
      rw [List.countP_eq_zero]
      intro a ha hp
      exact hany (List.any_eq_true.2 ⟨a, ha, hp⟩)

theorem JoinsOnce.countP_innerJoin (h : JoinsOnce on left right) (p : α × β → Bool) :
    (innerJoin on left right).countP p =
      left.countP fun a => right.any fun b => on a b && p (a, b) := by
  induction left with
  | nil => rfl
  | cons a left ih =>
    have hone : right.countP (fun b => on a b && p (a, b)) ≤ 1 := by
      apply Nat.le_trans (List.countP_mono_left _) (h a List.mem_cons_self)
      intro b _ hb
      exact (Bool.and_eq_true_iff.1 hb).1
    rw [countP_innerJoin_cons, List.countP_cons, countP_eq_ite_any hone,
      ih fun b hb => h b (List.mem_cons_of_mem a hb), Nat.add_comm]

/-- The left rows of the joined pairs and the rows alone are the left rows. -/
theorem JoinsOnce.countP_innerJoin_add (h : JoinsOnce on left right) (p : α → Bool) :
    (innerJoin on left right).countP (fun pair => p pair.1) + (alone on left right).countP p =
      left.countP p := by
  have hjoined : (innerJoin on left right).countP (fun pair => p pair.1) =
      (left.filter fun a => right.any (on a)).countP p := by
    rw [h.countP_innerJoin, List.countP_filter]
    congr 1
    funext a
    rw [Bool.eq_iff_iff]
    simp only [List.any_eq_true, Bool.and_eq_true]
    constructor
    · rintro ⟨b, hb, hon, hp⟩
      exact ⟨hp, b, hb, hon⟩
    · rintro ⟨hp, b, hb, hon⟩
      exact ⟨b, hb, hon, hp⟩
  rw [hjoined, alone, ← List.countP_eq_countP_filter_add]

theorem JoinsOnce.length_innerJoin_add (h : JoinsOnce on left right) :
    (innerJoin on left right).length + (alone on left right).length = left.length := by
  simpa only [List.countP_true] using h.countP_innerJoin_add fun _ => true

end Joins

end PhloTransform.Library
