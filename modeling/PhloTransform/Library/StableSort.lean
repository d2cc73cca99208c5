import Mathlib.Data.List.Sort
import Mathlib.Tactic.Common

/-!
# Stable sorting of a growing log

Sorting by a total preorder keeps equal elements in order, so it commutes with
selecting elements; and one more element either comes out first or leaves the first
one where it is.

Main results:

- Theorem `filter_insertionSort`: sorting commutes with selecting.
- Theorem `insertionSort_insertionSort_congr`: what an earlier sort leaves to a stable one.
-/

namespace PhloTransform.Library

variable {α : Type*} {r : α → α → Prop} [DecidableRel r]
variable {l : List α}
variable {s : α → α → Prop}

/-! ## Selecting -/

/-- Inserting into a sorted list commutes with selecting. -/
theorem filter_orderedInsert [IsTrans α r] (p : α → Bool) (a : α) (hl : l.Pairwise r) :
    (l.orderedInsert r a).filter p =
      if p a then (l.filter p).orderedInsert r a else l.filter p := by
  induction l with
  | nil => by_cases hp : p a <;> simp [hp]
  | cons b l ih =>
    obtain ⟨hb, hl⟩ := List.pairwise_cons.1 hl
    by_cases hab : r a b
    · rw [List.orderedInsert_cons_of_le r l hab]
      by_cases hp : p a
      · -- `a` stays in front of whatever is left of `b :: l`
        have hfront : ((b :: l).filter p).orderedInsert r a = a :: (b :: l).filter p := by
          cases hrest : (b :: l).filter p with
          | nil => rfl
          | cons c rest =>
            have hc : c ∈ b :: l := (List.mem_filter.1 (hrest ▸ List.mem_cons_self ..)).1
            refine List.orderedInsert_cons_of_le r rest ?_
            rcases List.mem_cons.1 hc with rfl | hc
            · exact hab
            · exact IsTrans.trans _ _ _ hab (hb c hc)
        rw [if_pos hp, hfront, List.filter_cons_of_pos hp]
      · rw [if_neg hp, List.filter_cons_of_neg hp]
    · rw [List.orderedInsert_of_not_le r l hab]
      by_cases hp : p a <;> by_cases hpb : p b
      · rw [List.filter_cons_of_pos hpb, ih hl, if_pos hp, if_pos hp,
          List.filter_cons_of_pos hpb, List.orderedInsert_of_not_le r _ hab]
      · rw [List.filter_cons_of_neg hpb, ih hl, if_pos hp, if_pos hp,
          List.filter_cons_of_neg hpb]
      · rw [List.filter_cons_of_pos hpb, ih hl, if_neg hp, if_neg hp,
          List.filter_cons_of_pos hpb]
      · rw [List.filter_cons_of_neg hpb, ih hl, if_neg hp, if_neg hp,
          List.filter_cons_of_neg hpb]

theorem filter_insertionSort [Std.Total r] [IsTrans α r] (p : α → Bool) (l : List α) :
    (l.insertionSort r).filter p = (l.filter p).insertionSort r := by
  induction l with
  | nil => rfl
  | cons a l ih =>
    rw [List.insertionSort_cons, filter_orderedInsert p a (List.pairwise_insertionSort r l), ih]
    by_cases hp : p a
    · rw [if_pos hp, List.filter_cons_of_pos hp, List.insertionSort_cons]
    · rw [if_neg hp, List.filter_cons_of_neg hp]

theorem insertionSort_congr [DecidableRel s] (h : ∀ a ∈ l, ∀ b ∈ l, r a b ↔ s a b) :
    l.insertionSort r = l.insertionSort s := by
  simpa using List.map_insertionSort r s id l h

/-! ## Sorting twice -/

theorem eq_of_filter_eq {β : Type*} [LinearOrder β] (f : α → β) {l₁ l₂ : List α}
    (h₁ : l₁.Pairwise fun a b => f a ≤ f b) (h₂ : l₂.Pairwise fun a b => f a ≤ f b)
    (h : ∀ x, l₁.filter (fun a => f a = x) = l₂.filter (fun a => f a = x)) : l₁ = l₂ := by
  have hmem (c : α) : c ∈ l₁ ↔ c ∈ l₂ := by
    have hclass : c ∈ l₁.filter (fun a => f a = f c) ↔ c ∈ l₂.filter (fun a => f a = f c) := by
      rw [h]
    simpa using hclass
  induction l₁ generalizing l₂ with
  | nil =>
    cases l₂ with
    | nil => rfl
    | cons b l₂ => exact absurd ((hmem b).2 (List.mem_cons_self ..)) List.not_mem_nil
  | cons a l₁ ih =>
    cases l₂ with
    | nil => exact absurd ((hmem a).1 (List.mem_cons_self ..)) List.not_mem_nil
    | cons b l₂ =>
      have hle {c d : α} {l : List α} (hl : (c :: l).Pairwise fun a b => f a ≤ f b)
          (hd : d ∈ c :: l) : f c ≤ f d := by
        rcases List.mem_cons.1 hd with rfl | hd
        · exact le_rfl
        · exact List.rel_of_pairwise_cons hl hd
      have hab : f a = f b :=
        le_antisymm (hle h₁ ((hmem b).2 (List.mem_cons_self ..)))
          (hle h₂ ((hmem a).1 (List.mem_cons_self ..)))
      have hhead := h (f a)
      rw [List.filter_cons_of_pos (by simp), List.filter_cons_of_pos (by simp [hab]),
        List.cons.injEq] at hhead
      obtain ⟨rfl, -⟩ := hhead
      have hrest (x : β) :
          l₁.filter (fun c => f c = x) = l₂.filter (fun c => f c = x) := by
        have hx := h x
        by_cases hax : f a = x
        · rw [List.filter_cons_of_pos (by simpa using hax),
            List.filter_cons_of_pos (by simpa using hax)] at hx
          exact (List.cons.inj hx).2
        · rwa [List.filter_cons_of_neg (by simpa using hax),
            List.filter_cons_of_neg (by simpa using hax)] at hx
      have htail (c : α) : c ∈ l₁ ↔ c ∈ l₂ := by
        have hclass : c ∈ l₁.filter (fun a => f a = f c) ↔
            c ∈ l₂.filter (fun a => f a = f c) := by rw [hrest]
        simpa using hclass
      rw [ih h₁.of_cons h₂.of_cons hrest htail]

/-- Before a stable sort, only the order inside a class matters. -/
theorem insertionSort_insertionSort_congr {β : Type*} [LinearOrder β] (f : α → β) [Std.Total r]
    [IsTrans α r] [DecidableRel s] [Std.Total s] [IsTrans α s]
    (h : ∀ a ∈ l, ∀ b ∈ l, f a = f b → (r a b ↔ s a b)) :
    (l.insertionSort r).insertionSort (fun a b => f a ≤ f b) =
      (l.insertionSort s).insertionSort (fun a b => f a ≤ f b) := by
  have htotal : Std.Total fun a b : α => f a ≤ f b := ⟨fun a b => le_total (f a) (f b)⟩
  have htrans : IsTrans α fun a b => f a ≤ f b := ⟨fun _ _ _ => le_trans⟩
  apply eq_of_filter_eq f (List.pairwise_insertionSort _ _) (List.pairwise_insertionSort _ _)
  intro x
  rw [filter_insertionSort, filter_insertionSort, filter_insertionSort, filter_insertionSort]
  congr 1
  apply insertionSort_congr
  intro a ha b hb
  have hfa : f a = x := by simpa using (List.mem_filter.1 ha).2
  have hfb : f b = x := by simpa using (List.mem_filter.1 hb).2
  exact h a (List.mem_filter.1 ha).1 b (List.mem_filter.1 hb).1 (hfa.trans hfb.symm)

/-! ## One more element -/

theorem head?_orderedInsert (a : α) (l : List α) :
    (l.orderedInsert r a).head? = some a ∨ (l.orderedInsert r a).head? = l.head? := by
  cases l with
  | nil => exact Or.inl rfl
  | cons b l =>
    by_cases hab : r a b
    · rw [List.orderedInsert_cons_of_le r l hab]
      exact Or.inl rfl
    · rw [List.orderedInsert_of_not_le r l hab]
      exact Or.inr rfl

/-- One more element comes out first, or leaves the first one where it is. -/
theorem head?_insertionSort_middle [Std.Total r] [IsTrans α r] (pre post : List α) (x : α) :
    ((pre ++ x :: post).insertionSort r).head? = some x ∨
      ((pre ++ x :: post).insertionSort r).head? = ((pre ++ post).insertionSort r).head? := by
  induction pre with
  | nil => exact head?_orderedInsert x (post.insertionSort r)
  | cons a pre ih =>
    rw [List.cons_append, List.cons_append, List.insertionSort_cons, List.insertionSort_cons]
    cases hmore : (pre ++ x :: post).insertionSort r with
    | nil =>
      have hlength := congrArg List.length hmore
      simp at hlength
    | cons b rest =>
      rw [hmore, List.head?_cons] at ih
      by_cases hab : r a b
      · -- `a` comes before the first of the longer list, hence of the shorter one
        refine Or.inr ?_
        rw [List.orderedInsert_cons_of_le r rest hab, List.head?_cons]
        cases hless : (pre ++ post).insertionSort r with
        | nil => rfl
        | cons c rest' =>
          have hc : c ∈ b :: rest := by
            have hmem : c ∈ pre ++ post := by
              rw [← List.mem_insertionSort (r := r), hless]
              exact List.mem_cons_self ..
            rw [← hmore, List.mem_insertionSort]
            simp only [List.mem_append, List.mem_cons] at hmem ⊢
            tauto
          have hac : r a c := by
            rcases List.mem_cons.1 hc with rfl | hc
            · exact hab
            · have hsorted := List.pairwise_insertionSort r (pre ++ x :: post)
              rw [hmore] at hsorted
              exact IsTrans.trans _ _ _ hab ((List.pairwise_cons.1 hsorted).1 c hc)
          rw [List.orderedInsert_cons_of_le r rest' hac, List.head?_cons]
      · rw [List.orderedInsert_of_not_le r rest hab, List.head?_cons]
        rcases ih with hx | hsame
        · exact Or.inl hx
        · cases hless : (pre ++ post).insertionSort r with
          | nil =>
            rw [hless] at hsame
            cases hsame
          | cons c rest' =>
            rw [hless, List.head?_cons, Option.some.injEq] at hsame
            subst hsame
            refine Or.inr ?_
            rw [List.orderedInsert_of_not_le r rest' hab, List.head?_cons]

/-! ## The first row of each key -/

section FirstByKey

variable {K : Type*} [DecidableEq K]
variable {key : α → K} {seen : List K} {rows : List α}

/-- Keep the first row of each key that is not among `seen`. -/
def firstByKey (key : α → K) : List K → List α → List α
  | _, [] => []
  | seen, row :: rest =>
    if key row ∈ seen then firstByKey key seen rest
    else row :: firstByKey key (key row :: seen) rest

theorem mem_of_mem_firstByKey {row : α} (h : row ∈ firstByKey key seen rows) : row ∈ rows := by
  induction rows generalizing seen with
  | nil => exact h
  | cons first rest ih =>
    by_cases hseen : key first ∈ seen
    · rw [firstByKey, if_pos hseen] at h
      exact List.mem_cons_of_mem _ (ih h)
    · rw [firstByKey, if_neg hseen] at h
      rcases List.mem_cons.1 h with rfl | h
      · exact List.mem_cons_self ..
      · exact List.mem_cons_of_mem _ (ih h)

/-- A search that depends on the key alone finds the same row, if its keys are new. -/
theorem find?_firstByKey {p : α → Bool} (hp : ∀ a b, key a = key b → p a = p b)
    (hseen : ∀ row ∈ rows, p row = true → key row ∉ seen) :
    (firstByKey key seen rows).find? p = rows.find? p := by
  induction rows generalizing seen with
  | nil => rfl
  | cons row rest ih =>
    have hrest : ∀ row ∈ rest, p row = true → key row ∉ seen :=
      fun other hother => hseen other (List.mem_cons_of_mem _ hother)
    by_cases hrow : p row = true
    · rw [firstByKey, if_neg (hseen row (List.mem_cons_self ..) hrow),
        List.find?_cons_of_pos hrow, List.find?_cons_of_pos hrow]
    · rw [List.find?_cons_of_neg hrow]
      by_cases hold : key row ∈ seen
      · rw [firstByKey, if_pos hold]
        exact ih hrest
      · rw [firstByKey, if_neg hold, List.find?_cons_of_neg hrow]
        refine ih fun other hother hpo hmem => ?_
        rcases List.mem_cons.1 hmem with hsame | hmem
        · exact hrow ((hp row other hsame.symm).trans hpo)
        · exact hrest other hother hpo hmem

end FirstByKey

end PhloTransform.Library
