import Mathlib.Algebra.GroupWithZero.Nat
import Mathlib.Data.List.Sort
import Mathlib.Data.List.Count
import Mathlib.Data.List.Dedup
import Mathlib.Algebra.BigOperators.Group.List.Basic

/-!
# Lists as bags

Two sorted lists are compared by walking both: equal heads cancel, and of two different
heads the smaller one is left over.  What is left over is what one list has more of than
the other.

Main results:

- Theorem `insertionSort_eq_iff`: sorting tells bags apart.
- Theorem `count_cancel`: the leftovers are the two differences of the bags.
-/

namespace PhloTransform.Library

/-! ## Canonical order -/

theorem pairwise_insertionSort_key {α κ : Type*} [LinearOrder κ] (key : α → κ) (l : List α) :
    (l.insertionSort fun a b => key a ≤ key b).Pairwise fun a b => key a ≤ key b := by
  have : IsTrans α fun a b => key a ≤ key b := ⟨fun _ _ _ => le_trans⟩
  have : Std.Total fun a b : α => key a ≤ key b := ⟨fun a b => le_total (key a) (key b)⟩
  exact List.pairwise_insertionSort _ l

/-- Under a key that tells elements apart, two lists sort to the same list exactly when they
are the same bag. -/
theorem insertionSort_eq_iff {α κ : Type*} [LinearOrder κ] {key : α → κ}
    (hkey : Function.Injective key) {l r : List α} :
    l.insertionSort (fun a b => key a ≤ key b) = r.insertionSort (fun a b => key a ≤ key b) ↔
      l.Perm r := by
  constructor
  · intro h
    exact (List.perm_insertionSort _ l).symm.trans (h ▸ List.perm_insertionSort _ r)
  · intro hperm
    have hsame := ((List.perm_insertionSort (fun a b => key a ≤ key b) l).trans hperm).trans
      (List.perm_insertionSort (fun a b => key a ≤ key b) r).symm
    refine hsame.eq_of_pairwise (fun a b _ _ hab hba => ?_)
      (pairwise_insertionSort_key key l) (pairwise_insertionSort_key key r)
    exact hkey (le_antisymm hab hba)

/-! ## Cancelling -/

section Cancel

variable {α κ : Type*} [DecidableEq α] [LinearOrder κ] (key : α → κ)
variable {r l : List α}

/-- Walk the right list against the head `a` of the left one; `rest` goes on with the left
tail. -/
def cancelHead (a : α) (l : List α) (rest : List α → List α × List α) :
    List α → List α × List α
  | [] => (a :: l, [])
  | b :: r =>
    if a = b then rest r
    else if key a ≤ key b then (a :: (rest (b :: r)).1, (rest (b :: r)).2)
    else ((cancelHead a l rest r).1, b :: (cancelHead a l rest r).2)

/-- Cancel equal elements of two sorted lists; what is left of each. -/
def cancel : List α → List α → List α × List α
  | [] => fun r => ([], r)
  | a :: l => cancelHead key a l (cancel l)

@[simp]
theorem cancel_nil_left (r : List α) : cancel key [] r = ([], r) :=
  rfl

@[simp]
theorem cancel_nil_right (l : List α) : cancel key l [] = (l, []) := by
  cases l <;> rfl

theorem cancel_cons (a b : α) (l r : List α) :
    cancel key (a :: l) (b :: r) =
      if a = b then cancel key l r
      else if key a ≤ key b then
        (a :: (cancel key l (b :: r)).1, (cancel key l (b :: r)).2)
      else ((cancel key (a :: l) r).1, b :: (cancel key (a :: l) r).2) :=
  rfl

theorem length_cancel (l r : List α) :
    l.length + (cancel key l r).2.length = r.length + (cancel key l r).1.length := by
  induction l generalizing r with
  | nil => simp
  | cons a l ihl =>
    induction r with
    | nil => simp
    | cons b r ihr =>
      rw [cancel_cons]
      split_ifs with heq hle
      · have := ihl r
        simp only [List.length_cons]
        omega
      · have := ihl (b :: r)
        simp only [List.length_cons] at this ⊢
        omega
      · simp only [List.length_cons] at ihr ⊢
        omega

variable {key}

theorem count_eq_zero_of_lt {a b : α} (hr : (b :: r).Pairwise fun x y => key x ≤ key y)
    (h : key a < key b) : (b :: r).count a = 0 := by
  rw [List.count_eq_zero]
  intro hmem
  rw [List.pairwise_cons] at hr
  rcases List.mem_cons.1 hmem with rfl | hmem
  · exact lt_irrefl _ h
  · exact absurd (hr.1 a hmem) (not_le.2 h)

/-- What is left over of two sorted lists is what each has more of than the other. -/
theorem count_cancel (hkey : ∀ a ∈ l, ∀ b ∈ r, key a = key b → a = b)
    (hl : l.Pairwise fun x y => key x ≤ key y) (hr : r.Pairwise fun x y => key x ≤ key y) (x : α) :
    (cancel key l r).1.count x = l.count x - r.count x ∧
      (cancel key l r).2.count x = r.count x - l.count x := by
  induction l generalizing r with
  | nil => simp
  | cons a l ihl =>
    induction r with
    | nil => simp
    | cons b r ihr =>
      have hl' := (List.pairwise_cons.1 hl).2
      have hr' := (List.pairwise_cons.1 hr).2
      have hhead : key a = key b → a = b := hkey a (by simp) b (by simp)
      have hleftkey : ∀ c ∈ l, ∀ d ∈ b :: r, key c = key d → c = d := fun c hc =>
        hkey c (List.mem_cons_of_mem _ hc)
      have hrightkey : ∀ c ∈ a :: l, ∀ d ∈ r, key c = key d → c = d := fun c hc d hd =>
        hkey c hc d (List.mem_cons_of_mem _ hd)
      rw [cancel_cons]
      split_ifs with heq hle
      · subst heq
        obtain ⟨hleft, hright⟩ := ihl
          (fun c hc d hd => hleftkey c hc d (List.mem_cons_of_mem _ hd)) hl' hr'
        rw [hleft, hright, List.count_cons, List.count_cons]
        omega
      · -- The head of the left list is below the whole right list.
        have hlt : key a < key b := lt_of_le_of_ne hle fun h => heq (hhead h)
        have hnone := count_eq_zero_of_lt hr hlt
        obtain ⟨hleft, hright⟩ := ihl hleftkey hl' hr
        simp only [List.count_cons, hleft, hright] at hnone ⊢
        by_cases hx : a = x
        · subst hx
          simp only [beq_self_eq_true, if_true]
          omega
        · simp [hx]
      · have hlt : key b < key a := not_le.1 hle
        have hnone := count_eq_zero_of_lt hl hlt
        obtain ⟨hleft, hright⟩ := ihr hrightkey hr'
        simp only [List.count_cons, hleft, hright] at hnone ⊢
        by_cases hx : b = x
        · subst hx
          simp only [beq_self_eq_true, if_true]
          omega
        · simp [hx]

/-- Nothing is left over exactly when the bags are equal. -/
theorem cancel_eq_nil_iff (hkey : ∀ a ∈ l, ∀ b ∈ r, key a = key b → a = b)
    (hl : l.Pairwise fun x y => key x ≤ key y) (hr : r.Pairwise fun x y => key x ≤ key y) :
    cancel key l r = ([], []) ↔ l.Perm r := by
  have hcount := count_cancel hkey hl hr
  constructor
  · intro hnil
    rw [List.perm_iff_count]
    intro x
    obtain ⟨hleft, hright⟩ := hcount x
    simp only [hnil, List.count_nil] at hleft hright
    omega
  · intro hperm
    have hzero : ∀ x, (cancel key l r).1.count x = 0 ∧ (cancel key l r).2.count x = 0 := by
      intro x
      obtain ⟨hleft, hright⟩ := hcount x
      rw [hleft, hright, hperm.count_eq]
      simp
    have hempty : ∀ s : List α, (∀ x, s.count x = 0) → s = [] := by
      intro s hs
      rw [List.eq_nil_iff_forall_not_mem]
      exact fun x => List.count_eq_zero.1 (hs x)
    exact Prod.ext (hempty _ fun x => (hzero x).1) (hempty _ fun x => (hzero x).2)

end Cancel

/-! ## Groups -/

section Groups

variable {α κ : Type*} [DecidableEq κ] (key : α → κ)

/-- The elements of a list with one key. -/
def group (l : List α) (k : κ) : List α :=
  l.filter fun a => decide (key a = k)

variable {key}

theorem mem_group {l : List α} {k : κ} {a : α} : a ∈ group key l k ↔ a ∈ l ∧ key a = k := by
  simp [group]

theorem countP_groups {keys : List κ} (hkeys : keys.Nodup) {l : List α}
    (hl : ∀ a ∈ l, key a ∈ keys) (p : α → Bool) :
    (keys.map fun k => (group key l k).countP p).sum = l.countP p := by
  induction l with
  | nil => simp [group]
  | cons a l ih =>
    rw [List.forall_mem_cons] at hl
    have hone : ∀ k, (group key (a :: l) k).countP p =
        (group key l k).countP p + if key a = k then (if p a then 1 else 0) else 0 := by
      intro k
      by_cases hk : key a = k
      · simp [group, hk, List.countP_cons]
      · simp [group, hk]
    have hsum : (keys.map fun k => if key a = k then (if p a then 1 else 0) else 0).sum =
        if p a then 1 else 0 := by
      rw [List.sum_map_eq_nsmul_single (key a) _ fun k hk _ => if_neg hk.symm,
        List.count_eq_one_of_mem hkeys hl.1]
      simp
    simp only [hone, List.sum_map_add, ih hl.2, hsum, List.countP_cons]

end Groups

theorem countP_flatMap_eq_zero {α β : Type*} {l : List α} {f : α → List β} {p : β → Bool}
    (h : ∀ a ∈ l, (f a).countP p = 0) : (l.flatMap f).countP p = 0 := by
  rw [List.countP_eq_zero]
  intro b hb
  obtain ⟨a, ha, hba⟩ := List.mem_flatMap.1 hb
  exact List.countP_eq_zero.1 (h a ha) b hba

/-- Counting in lists of which only one has anything to count. -/
theorem countP_flatMap_eq {α β : Type*} {l : List α} {f : α → List β} {p : β → Bool} {a : α}
    (hnodup : l.Nodup) (ha : a ∈ l) (hother : ∀ b ∈ l, b ≠ a → (f b).countP p = 0) :
    (l.flatMap f).countP p = (f a).countP p := by
  induction l with
  | nil => cases ha
  | cons c l ih =>
    rw [List.nodup_cons] at hnodup
    rw [List.flatMap_cons, List.countP_append]
    by_cases hc : c = a
    · subst hc
      rw [countP_flatMap_eq_zero, Nat.add_zero]
      intro b hb
      exact hother b (List.mem_cons_of_mem _ hb) fun hsame => hnodup.1 (hsame ▸ hb)
    · have hmem : a ∈ l := (List.mem_cons.1 ha).resolve_left (Ne.symm hc)
      rw [hother c List.mem_cons_self hc, Nat.zero_add]
      exact ih hnodup.2 hmem fun b hb => hother b (List.mem_cons_of_mem _ hb)

end PhloTransform.Library
