import Mathlib.Data.List.Infix
import Mathlib.Data.List.Basic
import Mathlib.Data.List.TakeWhile
import Mathlib.Tactic.Common

/-!
# Names joined by separators

A list of parts is written with a separator before each part, or with one between two parts.
While no part has the separator in it the parts can be read back.  A tag after a doubled
separator can be read back from any text in front of it, while the tag neither starts with the
separator nor doubles it.

Main results:

- Theorem `spelled_inj`: parts behind separators are read back.
- Theorem `intercalate_inj`: so are the parts between separators.
-/

namespace PhloTransform.Library

variable {α β : Type*}
variable {sep : α} {xs ys : List (List α)}
variable {part x y tag tag' : List α}

/-! ## Parts behind separators -/

def spelled (sep : α) (parts : List (List α)) : List α :=
  parts.flatMap (sep :: ·)

@[simp]
theorem spelled_nil (sep : α) : spelled sep [] = [] :=
  rfl

@[simp]
theorem spelled_cons (sep : α) (part : List α) (parts : List (List α)) :
    spelled sep (part :: parts) = sep :: part ++ spelled sep parts :=
  rfl

theorem takeWhile_append_cons [DecidableEq α] (h : sep ∉ part) (rest : List α) :
    (part ++ sep :: rest).takeWhile (· ≠ sep) = part := by
  have hpart : ∀ a ∈ part, decide (a ≠ sep) = true := by
    intro a ha
    simpa using fun heq : a = sep => h (heq ▸ ha)
  rw [List.takeWhile_append_of_pos hpart, List.takeWhile_cons_of_neg (by simp), List.append_nil]

theorem append_cons_inj {rest rest' : List α} (hx : sep ∉ x) (hy : sep ∉ y) :
    x ++ sep :: rest = y ++ sep :: rest' ↔ x = y ∧ rest = rest' := by
  classical
  refine ⟨fun h => ?_, fun h => by rw [h.1, h.2]⟩
  have hpart : x = y := by
    rw [← takeWhile_append_cons hx rest, h, takeWhile_append_cons hy rest']
  subst hpart
  exact ⟨rfl, by simpa using h⟩

theorem takeWhile_append_spelled [DecidableEq α] (h : sep ∉ part) (parts : List (List α)) :
    (part ++ spelled sep parts).takeWhile (· ≠ sep) = part := by
  cases parts with
  | nil =>
    rw [spelled_nil, List.append_nil]
    refine List.takeWhile_eq_self_iff.2 fun a ha => ?_
    simpa using fun heq : a = sep => h (heq ▸ ha)
  | cons next parts => exact takeWhile_append_cons h _

theorem spelled_inj (hxs : ∀ x ∈ xs, sep ∉ x) (hys : ∀ y ∈ ys, sep ∉ y) :
    spelled sep xs = spelled sep ys ↔ xs = ys := by
  classical
  refine ⟨fun h => ?_, fun h => by rw [h]⟩
  induction xs generalizing ys with
  | nil =>
    cases ys with
    | nil => rfl
    | cons y ys => simp at h
  | cons x xs ih =>
    cases ys with
    | nil => simp at h
    | cons y ys =>
      rw [List.forall_mem_cons] at hxs hys
      have hrest : x ++ spelled sep xs = y ++ spelled sep ys := by simpa using h
      have hpart : x = y := by
        rw [← takeWhile_append_spelled hxs.1 xs, hrest, takeWhile_append_spelled hys.1 ys]
      subst hpart
      rw [ih hxs.2 hys.2 (List.append_cancel_left hrest)]

theorem cons_intercalate (sep : α) {parts : List (List α)} (h : parts ≠ []) :
    sep :: List.intercalate [sep] parts = spelled sep parts := by
  induction parts with
  | nil => exact absurd rfl h
  | cons part parts ih =>
    cases parts with
    | nil => simp
    | cons next parts =>
      rw [List.intercalate_cons_cons, spelled_cons, ← ih (by simp)]
      simp

theorem intercalate_inj (hx : xs ≠ []) (hy : ys ≠ []) (hxs : ∀ x ∈ xs, sep ∉ x)
    (hys : ∀ y ∈ ys, sep ∉ y) :
    List.intercalate [sep] xs = List.intercalate [sep] ys ↔ xs = ys := by
  rw [← spelled_inj hxs hys, ← cons_intercalate sep hx, ← cons_intercalate sep hy,
    List.cons_inj_right]

theorem length_le_of_spelled {a b : α} (hne : a ≠ b) (ha : x ++ spelled a xs = y ++ spelled a ys)
    (hb : x ++ spelled b xs = y ++ spelled b ys) : y.length ≤ x.length := by
  by_contra hlt
  cases xs with
  | nil =>
    have hlength := congrArg List.length ha
    simp at hlength
    omega
  | cons next xs =>
    have hleft := congrArg (·[x.length]?) ha
    have hright := congrArg (·[x.length]?) hb
    simp only [spelled_cons, List.cons_append, Nat.le_refl, List.getElem?_append_right,
      Nat.sub_self, List.getElem?_cons_zero] at hleft hright
    rw [List.getElem?_append_left (by omega)] at hleft hright
    exact hne (Option.some.inj (hleft.trans hright.symm))

/-- Two separators tell every list of parts, whatever is in the parts. -/
theorem spelled_inj_of_ne {a b : α} (hne : a ≠ b) (ha : spelled a xs = spelled a ys)
    (hb : spelled b xs = spelled b ys) : xs = ys := by
  induction xs generalizing ys with
  | nil =>
    cases ys with
    | nil => rfl
    | cons y ys => simp at ha
  | cons x xs ih =>
    cases ys with
    | nil => simp at ha
    | cons y ys =>
      have ha' : x ++ spelled a xs = y ++ spelled a ys := by simpa using ha
      have hb' : x ++ spelled b xs = y ++ spelled b ys := by simpa using hb
      have hlength : x.length = y.length :=
        Nat.le_antisymm (length_le_of_spelled hne ha'.symm hb'.symm)
          (length_le_of_spelled hne ha' hb')
      obtain ⟨rfl, hxs⟩ := List.append_inj ha' hlength
      rw [ih hxs (List.append_cancel_left hb')]
/-! ## Tags -/

/-- A text that neither starts with a separator nor doubles it. -/
structure IsTag (sep : α) (tag : List α) : Prop where
  head : tag.head? ≠ some sep
  single : ¬[sep, sep] <:+: tag

/-- No tag is behind the separators inside of a longer tag. -/
theorem IsTag.length_le {a b : List α} (htag' : IsTag sep tag')
    (h : a ++ sep :: sep :: tag = b ++ sep :: sep :: tag') : tag'.length ≤ tag.length := by
  by_contra hlt
  have hsuffix : sep :: sep :: tag <:+ sep :: sep :: tag' :=
    List.suffix_of_suffix_length_le ⟨a, h⟩ ⟨b, rfl⟩ (by simpa using by omega)
  rcases List.suffix_cons_iff.1 hsuffix with heq | hrest
  · -- the same tags have the same length
    rw [List.cons_inj_right, List.cons_inj_right] at heq
    exact hlt (congrArg List.length heq).ge
  · rcases List.suffix_cons_iff.1 hrest with heq | hinside
    · -- the longer tag would start with a separator
      refine htag'.head ?_
      rw [← (List.cons_inj_right sep).1 heq]
      rfl
    · exact htag'.single ((List.prefix_append [sep, sep] tag).isInfix.trans hinside.isInfix)

theorem tagged_inj {a b : List α} (htag : IsTag sep tag) (htag' : IsTag sep tag') :
    a ++ sep :: sep :: tag = b ++ sep :: sep :: tag' ↔ a = b ∧ tag = tag' := by
  refine ⟨fun h => ?_, fun h => by rw [h.1, h.2]⟩
  have hlength : tag.length = tag'.length :=
    Nat.le_antisymm (htag.length_le h.symm) (htag'.length_le h)
  obtain ⟨hfront, hback⟩ := List.append_inj' h (by simp [hlength])
  exact ⟨hfront, by simpa using hback⟩

/-! ## Distinct values -/

/-- A list and what has other values are distinct together when each of them is. -/
theorem nodup_append_iff_of_apart {f : α → β} {l m : List α} {x : β} (hl : ∀ a ∈ l, f a = x)
    (hm : ∀ b ∈ m, f b ≠ x) : (l ++ m).Nodup ↔ l.Nodup ∧ m.Nodup := by
  have hapart : ∀ a ∈ l, ∀ b ∈ m, a ≠ b := by
    rintro a ha b hb rfl
    exact hm a hb (hl a ha)
  rw [List.nodup_append]
  exact ⟨fun hnodup => ⟨hnodup.1, hnodup.2.1⟩, fun hnodup => ⟨hnodup.1, hnodup.2, hapart⟩⟩

end PhloTransform.Library
