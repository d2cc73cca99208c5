import Mathlib.Data.List.Basic
import Mathlib.Tactic.Common

/-!
# Fields of a state that reads a list

A state reads the entries of a list one after the other.  A field keeps the first value that an
entry has for it, takes the last one, or collects all of them.

Main results:

- Theorem `foldl_keepsFirst`: the first value of the entries is kept.
- Theorem `foldl_takesLast`: the last value of the entries is taken.
-/

namespace PhloTransform.Library

variable {σ α β : Type*} {step : σ → α → σ} {f : α → Option β} {l : List α}
variable {field : σ → Option β} {l' : List α}

/-! ## One value -/

def KeepsFirst (step : σ → α → σ) (field : σ → Option β) (f : α → Option β) : Prop :=
  ∀ s a, field (step s a) = (field s).or (f a)

/-- A field takes the value of the entry that is read. -/
def TakesLast (step : σ → α → σ) (field : σ → Option β) (f : α → Option β) : Prop :=
  ∀ s a, field (step s a) = (f a).or (field s)

theorem foldl_keepsFirst (h : KeepsFirst step field f) (l : List α) (s : σ) :
    field (l.foldl step s) = (field s).or (l.findSome? f) := by
  induction l generalizing s with
  | nil => simp
  | cons a l ih =>
    rw [List.foldl_cons, ih, h, Option.or_assoc, List.findSome?_cons]
    cases f a <;> simp

theorem foldl_takesLast (h : TakesLast step field f) (l : List α) (s : σ) :
    field (l.foldl step s) = (l.reverse.findSome? f).or (field s) := by
  induction l generalizing s with
  | nil => simp
  | cons a l ih =>
    rw [List.foldl_cons, ih, h, ← Option.or_assoc, List.reverse_cons, List.findSome?_append]
    simp

/-! ## All values -/

/-- A field collects the values of the entry that is read. -/
def Collects (step : σ → α → σ) (field : σ → List β) (values : α → List β) : Prop :=
  ∀ s a b, b ∈ field (step s a) ↔ b ∈ field s ∨ b ∈ values a

theorem mem_foldl_collects {field : σ → List β} {values : α → List β}
    (h : Collects step field values) (l : List α) (s : σ) {b : β} :
    b ∈ field (l.foldl step s) ↔ b ∈ field s ∨ ∃ a ∈ l, b ∈ values a := by
  induction l generalizing s with
  | nil => simp
  | cons a l ih =>
    rw [List.foldl_cons, ih, h, or_assoc, List.exists_mem_cons_iff]

/-! ## Entries that agree -/

/-- The entries of a list that have a value have the same one. -/
def Agree (f : α → Option β) (l : List α) : Prop :=
  ∀ a ∈ l, ∀ b ∈ l, ∀ x ∈ f a, ∀ y ∈ f b, x = y

theorem Agree.subset (h : Agree f l) (hl : l' ⊆ l) : Agree f l' :=
  fun a ha b hb => h a (hl ha) b (hl hb)

theorem agree_map {γ : Type*} {g : γ → α} {l : List γ} : Agree f (l.map g) ↔ Agree (f ∘ g) l := by
  simp [Agree]

theorem Agree.findSome?_eq (h : Agree f l) {a : α} (ha : a ∈ l) {x : β} (hx : f a = some x) :
    l.findSome? f = some x := by
  cases hfirst : l.findSome? f with
  | none => rw [List.findSome?_eq_none_iff.1 hfirst a ha] at hx; cases hx
  | some y =>
    obtain ⟨b, hb, hy⟩ := List.exists_of_findSome?_eq_some hfirst
    rw [h b hb a ha y hy x hx]

theorem Agree.findSome?_perm (h : Agree f l) (hperm : l'.Perm l) :
    l'.findSome? f = l.findSome? f := by
  cases hfirst : l'.findSome? f with
  | none =>
    refine (List.findSome?_eq_none_iff.2 fun a ha => ?_).symm
    exact List.findSome?_eq_none_iff.1 hfirst a (hperm.mem_iff.2 ha)
  | some x =>
    obtain ⟨a, ha, hx⟩ := List.exists_of_findSome?_eq_some hfirst
    exact (h.findSome?_eq (hperm.mem_iff.1 ha) hx).symm

end PhloTransform.Library
