import PhloTransform.Core.Identity

/-!
# Trimming

Blanks at the ends of a text, and what trimming leaves between them.

Main results:

- Theorem `shape`: a text is blank, or has a first and a last character that is no blank.
- Theorem `trim_eq_trimStart`: the ends can be trimmed in any order.
-/

namespace PhloTransform.Core

/-- `trim_start`. -/
def trimStart (text : List Char) : List Char :=
  text.dropWhile isWhitespace

/-- `trim_end`. -/
def trimEnd (text : List Char) : List Char :=
  (text.reverse.dropWhile isWhitespace).reverse

/-! ## Blanks at the ends -/

def Blank (text : List Char) : Prop :=
  ∀ c ∈ text, isWhitespace c = true

section Ends

variable {front back text : List Char} {c : Char}

theorem Blank.reverse (h : Blank text) : Blank text.reverse :=
  fun c hc => h c (List.mem_reverse.1 hc)

@[simp]
theorem trimStart_append (h : Blank front) : trimStart (front ++ text) = trimStart text := by
  induction front with
  | nil => rfl
  | cons c front ih =>
    rw [trimStart, List.cons_append, List.dropWhile_cons_of_pos (h c List.mem_cons_self)]
    exact ih fun d hd => h d (List.mem_cons_of_mem c hd)

theorem trimStart_cons (h : isWhitespace c = false) : trimStart (c :: text) = c :: text :=
  List.dropWhile_cons_of_neg (by simp [h])

theorem trimEnd_eq (text : List Char) : trimEnd text = (trimStart text.reverse).reverse :=
  rfl

theorem trimEnd_append (h : Blank back) : trimEnd (text ++ back) = trimEnd text := by
  rw [trimEnd_eq, List.reverse_append, trimStart_append h.reverse]
  rfl

theorem trimEnd_concat (h : isWhitespace c = false) : trimEnd (text ++ [c]) = text ++ [c] := by
  rw [trimEnd_eq, List.reverse_append, List.reverse_singleton, List.singleton_append,
    trimStart_cons h, List.reverse_cons, List.reverse_reverse]

theorem trim_eq (text : List Char) : trim text = trimEnd (trimStart text) :=
  rfl

theorem trimStart_blank (h : Blank text) : trimStart text = [] := by
  rw [← List.append_nil text, trimStart_append h]
  rfl

theorem trim_blank (h : Blank text) : trim text = [] := by
  rw [trim_eq, trimStart_blank h]
  rfl

theorem trim_append (hfront : Blank front) : trim (front ++ text) = trim text := by
  rw [trim_eq, trimStart_append hfront]
  rfl

theorem length_trimEnd_le (text : List Char) : (trimEnd text).length ≤ text.length := by
  rw [trimEnd, List.length_reverse]
  exact ((List.dropWhile_suffix _).length_le).trans (List.length_reverse).le

theorem length_trim_le (text : List Char) : (trim text).length ≤ (trimStart text).length :=
  length_trimEnd_le _

theorem length_trimStart_le (text : List Char) : (trimStart text).length ≤ text.length :=
  (List.dropWhile_suffix _).length_le

theorem trimEnd_cons (h : isWhitespace c = false) : trimEnd (c :: text) = c :: trimEnd text := by
  rw [trimEnd, List.reverse_cons, List.dropWhile_append]
  split
  · next hnil =>
      rw [trimEnd, List.isEmpty_iff.1 hnil]
      simp [h]
  · rw [List.reverse_append]
    rfl

theorem trimStart_concat (h : isWhitespace c = false) :
    trimStart (text ++ [c]) = trimStart text ++ [c] := by
  rw [trimStart, List.dropWhile_append]
  split
  · next hnil =>
      rw [trimStart, List.isEmpty_iff.1 hnil]
      simp [h]
  · rfl

end Ends

/-- The three shapes of a text between its blanks. -/
inductive Shape : List Char → Prop where
  | blank {front : List Char} (hfront : Blank front) : Shape front
  | single {front back : List Char} {a : Char} (hfront : Blank front) (hback : Blank back)
      (ha : isWhitespace a = false) : Shape (front ++ a :: back)
  | double {front middle back : List Char} {a b : Char} (hfront : Blank front) (hback : Blank back)
      (ha : isWhitespace a = false) (hb : isWhitespace b = false) :
      Shape (front ++ a :: (middle ++ b :: back))

theorem exists_back (text : List Char) :
    Blank text ∨ ∃ front b back, text = front ++ b :: back ∧ isWhitespace b = false ∧ Blank back := by
  induction text with
  | nil => exact Or.inl fun c hc => nomatch hc
  | cons c text ih =>
    rcases ih with hblank | ⟨front, b, back, rfl, hb, hback⟩
    · cases hc : isWhitespace c with
      | true =>
        refine Or.inl fun d hd => ?_
        rcases List.mem_cons.1 hd with rfl | hd
        · exact hc
        · exact hblank d hd
      | false => exact Or.inr ⟨[], c, text, rfl, hc, hblank⟩
    · exact Or.inr ⟨c :: front, b, back, rfl, hb, hback⟩

theorem shape (text : List Char) : Shape text := by
  induction text with
  | nil => exact Shape.blank fun c hc => nomatch hc
  | cons c text ih =>
    cases hc : isWhitespace c with
    | true =>
      have hcons : ∀ front, Blank front → Blank (c :: front) := by
        intro front hfront d hd
        rcases List.mem_cons.1 hd with rfl | hd
        · exact hc
        · exact hfront d hd
      cases ih with
      | blank hfront => exact Shape.blank (hcons _ hfront)
      | single hfront hback ha =>
        exact Shape.single (hcons _ hfront) hback ha
      | double hfront hback ha hb =>
        exact Shape.double (hcons _ hfront) hback ha hb
    | false =>
      have hnil : Blank [] := fun d hd => nomatch hd
      rcases exists_back text with hblank | ⟨middle, b, back, rfl, hb, hback⟩
      · exact Shape.single hnil hblank hc
      · exact Shape.double hnil hback hc hb

section Shapes

variable {front middle back : List Char} {a b : Char}

theorem trim_single (hfront : Blank front) (hback : Blank back) (ha : isWhitespace a = false) :
    trim (front ++ a :: back) = [a] := by
  rw [trim_append hfront, trim_eq, trimStart_cons ha, ← List.singleton_append,
    trimEnd_append hback, ← List.nil_append [a], trimEnd_concat ha]

theorem trimEnd_double (hback : Blank back) (hb : isWhitespace b = false) :
    trimEnd (middle ++ b :: back) = middle ++ [b] := by
  rw [← List.singleton_append, ← List.append_assoc, trimEnd_append hback, trimEnd_concat hb]

theorem trim_double (hfront : Blank front) (hback : Blank back) (ha : isWhitespace a = false)
    (hb : isWhitespace b = false) :
    trim (front ++ a :: (middle ++ b :: back)) = a :: (middle ++ [b]) := by
  rw [trim_append hfront, trim_eq, trimStart_cons ha, ← List.cons_append, trimEnd_double hback hb,
    List.cons_append]

theorem trim_eq_trimStart (text : List Char) : trim text = trimStart (trimEnd text) := by
  cases shape text with
  | blank hfront =>
    rw [trim_blank hfront, ← List.nil_append text, trimEnd_append hfront]
    rfl
  | single hfront hback ha =>
    rw [trim_single hfront hback ha, trimEnd_double hback ha, trimStart_append hfront,
      trimStart_cons ha]
  | @double front middle back a b hfront hback ha hb =>
    have hassoc : front ++ a :: (middle ++ b :: back) = (front ++ a :: middle) ++ b :: back := by
      simp
    rw [trim_double hfront hback ha hb, hassoc, trimEnd_double hback hb, List.append_assoc,
      trimStart_append hfront, List.cons_append, trimStart_cons ha]

theorem length_trim_le_trimEnd (text : List Char) : (trim text).length ≤ (trimEnd text).length := by
  rw [trim_eq_trimStart]
  exact length_trimStart_le _

end Shapes

theorem trim_trim (text : List Char) : trim (trim text) = trim text := by
  have hnil : Blank [] := fun c hc => nomatch hc
  cases shape text with
  | blank hfront => rw [trim_blank hfront, trim_blank hnil]
  | single hfront hback ha =>
    rw [trim_single hfront hback ha]
    exact trim_single hnil hnil ha
  | double hfront hback ha hb =>
    rw [trim_double hfront hback ha hb]
    exact trim_double hnil hnil ha hb

theorem mem_of_mem_trim {text : List Char} {c : Char} (h : c ∈ trim text) : c ∈ text := by
  have hstart : c ∈ trimStart text := by
    have hreverse := (List.dropWhile_suffix _).subset (List.mem_reverse.1 h)
    exact List.mem_reverse.1 hreverse
  exact (List.dropWhile_suffix _).subset hstart

theorem trim_append_blank {text back : List Char} (h : Blank back) :
    trim (text ++ back) = trim text := by
  rw [trim_eq_trimStart, trimEnd_append h, ← trim_eq_trimStart]

/-! ## Tight texts -/

/-- Neither the first nor the last character of a text is blank. -/
structure Tight (text : List Char) : Prop where
  head : ∀ c ∈ text.head?, isWhitespace c = false
  last : ∀ c ∈ text.getLast?, isWhitespace c = false

theorem trim_eq_self_iff {text : List Char} : trim text = text ↔ Tight text := by
  constructor
  · intro h
    cases shape text with
    | blank hfront =>
      rw [trim_blank hfront] at h
      subst h
      exact ⟨by simp, by simp⟩
    | single hfront hback ha =>
      rw [trim_single hfront hback ha] at h
      rw [← h]
      exact ⟨by simpa using ha, by simpa using ha⟩
    | @double front middle back a b hfront hback ha hb =>
      rw [trim_double hfront hback ha hb] at h
      rw [← h]
      refine ⟨by simpa using ha, ?_⟩
      rw [← List.cons_append, List.getLast?_concat]
      simpa using hb
  · intro h
    have hstart : trimStart text = text := by
      cases text with
      | nil => rfl
      | cons c text => exact trimStart_cons (h.head c rfl)
    rw [trim_eq, hstart]
    obtain rfl | ⟨front, c, rfl⟩ := List.eq_nil_or_concat text
    · rfl
    · rw [List.concat_eq_append] at h ⊢
      exact trimEnd_concat (h.last c List.getLast?_concat)

theorem Tight.append_cons {front back : List Char} {c : Char} (hfront : Tight front)
    (hne : front ≠ []) (hc : isWhitespace c = false) (hback : Tight back) :
    Tight (front ++ c :: back) where
  head := by
    cases front with
    | nil => exact absurd rfl hne
    | cons a front => exact hfront.head
  last := by
    intro a ha
    rw [List.getLast?_append_of_ne_nil _ (List.cons_ne_nil c back), List.getLast?_cons,
      Option.mem_some_iff] at ha
    cases hlast : back.getLast? with
    | none =>
      rw [hlast] at ha
      rwa [← ha]
    | some b =>
      rw [hlast] at ha
      rw [← ha]
      exact hback.last b hlast

end PhloTransform.Core
