import Mathlib.Tactic.Common

/-!
# Delimited texts

A text between two delimiters, in which the delimiter itself is written twice, can be read back
wherever it stands.

Main results:

- Theorem `readDelimited_doubled`: a text that was written is read, whatever follows it.
- Theorem `length_of_readDelimited`: what is read is shorter than how it was written.
-/

namespace PhloTransform.Library

variable {q : Char}

def doubled (q : Char) : List Char → List Char
  | [] => []
  | c :: rest => if c = q then q :: q :: doubled q rest else c :: doubled q rest

def delimited (q : Char) (text : List Char) : List Char :=
  q :: (doubled q text ++ [q])

/-- The text up to the delimiter that is not written twice, and what follows it. -/
def readDelimited (q : Char) : List Char → Option (List Char × List Char)
  | [] => none
  | [c] => if c = q then some ([], []) else none
  | c :: d :: rest =>
    if c = q then
      if d = q then (readDelimited q rest).map fun read => (q :: read.1, read.2)
      else some ([], d :: rest)
    else (readDelimited q (d :: rest)).map fun read => (c :: read.1, read.2)

theorem readDelimited_cons {c : Char} (h : c ≠ q) (text : List Char) :
    readDelimited q (c :: text) = (readDelimited q text).map fun read => (c :: read.1, read.2) := by
  cases text with
  | nil => simp [readDelimited, h]
  | cons d rest => rw [readDelimited, if_neg h]

/-- A text that was written is read, unless another delimiter follows it. -/
theorem readDelimited_doubled (text : List Char) {rest : List Char} (h : rest.head? ≠ some q) :
    readDelimited q (doubled q text ++ q :: rest) = some (text, rest) := by
  induction text with
  | nil =>
    cases rest with
    | nil => simp [doubled, readDelimited]
    | cons d rest =>
      have hd : d ≠ q := by simpa using h
      simp [doubled, readDelimited, hd]
  | cons c text ih =>
    by_cases hc : c = q
    · subst hc
      simp [doubled, readDelimited, ih]
    · rw [doubled, if_neg hc, List.cons_append, readDelimited_cons hc, ih]
      rfl

theorem length_of_readDelimited {text value rest : List Char}
    (h : readDelimited q text = some (value, rest)) : value.length + rest.length < text.length := by
  induction text using readDelimited.induct q generalizing value rest with
  | case1 => cases h
  | case2 =>
    simp only [readDelimited, ↓reduceIte, Option.some.injEq, Prod.mk.injEq] at h
    rw [← h.1, ← h.2]
    simp
  | case3 c hc => simp [readDelimited, hc] at h
  | case4 text ih =>
    simp only [readDelimited, ↓reduceIte, Option.map_eq_some_iff, Prod.mk.injEq] at h
    obtain ⟨read, hread, rfl, rfl⟩ := h
    have hlength := ih hread
    simp only [List.length_cons]
    omega
  | case5 d text hd =>
    simp only [readDelimited, ↓reduceIte, if_neg hd, Option.some.injEq, Prod.mk.injEq] at h
    obtain ⟨rfl, rfl⟩ := h
    simp
  | case6 c d text hc ih =>
    rw [readDelimited_cons hc, Option.map_eq_some_iff] at h
    obtain ⟨read, hread, heq⟩ := h
    cases heq
    have hlength := ih hread
    simp only [List.length_cons] at hlength ⊢
    omega

end PhloTransform.Library
