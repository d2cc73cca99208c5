import PhloTransform.Dbt.JinjaScan

/-!
# Markers at the delimiters of a construct

A sign that is attached to a delimiter is a marker for whitespace control.  A sign behind a blank
belongs to the expression, and is stripped all the same.

Main results:

- Theorem `stripMarkers_eq_iff`: when the signs that are stripped are the attached ones.
-/

namespace PhloTransform.Dbt.JinjaScan

open Library.Jinja (isSign dropOpeningSign dropClosingSign content)
open Core

variable {body : List Char}

/-! ## Signs at the ends -/

def signFirst (text : List Char) : Bool :=
  text.head?.any isSign

def signLast (text : List Char) : Bool :=
  text.getLast?.any isSign

/-- Every sign at an end of the content stands where one is attached to the delimiter. -/
structure SignsAttached (body : List Char) : Prop where
  opening : signFirst (trim (content body)) = true → signFirst body = true
  closing : signLast (trim (content body)) = true → signLast (dropOpeningSign body) = true

section Signs

variable {front back text : List Char} {c : Char}

theorem isWhitespace_of_isSign (h : isSign c = true) : isWhitespace c = false := by
  simp only [isSign, Bool.or_eq_true, decide_eq_true_eq] at h
  rcases h with rfl | rfl <;> decide

theorem isSign_of_isWhitespace (h : isWhitespace c = true) : isSign c = false := by
  by_contra hsign
  rw [isWhitespace_of_isSign (by simpa using hsign)] at h
  cases h

theorem dropOpeningSign_cons (c : Char) (text : List Char) :
    dropOpeningSign (c :: text) = if isSign c = true then text else c :: text :=
  rfl

theorem dropClosingSign_concat (text : List Char) (c : Char) :
    dropClosingSign (text ++ [c]) = if isSign c = true then text else text ++ [c] := by
  rw [dropClosingSign, List.reverse_append, List.reverse_singleton, List.singleton_append,
    dropOpeningSign_cons]
  split
  · rw [List.reverse_reverse]
  · rw [List.reverse_cons, List.reverse_reverse]

theorem dropOpeningSign_of_not {text : List Char} (h : signFirst text = false) :
    dropOpeningSign text = text := by
  cases text with
  | nil => rfl
  | cons c text => rw [dropOpeningSign_cons, if_neg (by simpa [signFirst] using h)]

theorem signFirst_reverse (text : List Char) : signFirst text.reverse = signLast text := by
  rw [signFirst, List.head?_reverse]
  rfl

theorem dropClosingSign_of_not {text : List Char} (h : signLast text = false) :
    dropClosingSign text = text := by
  rw [dropClosingSign, dropOpeningSign_of_not (by rwa [signFirst_reverse]), List.reverse_reverse]

theorem signFirst_of_blank (h : Blank text) : signFirst text = false := by
  cases text with
  | nil => rfl
  | cons c text => exact isSign_of_isWhitespace (h c List.mem_cons_self)

theorem signLast_of_blank (h : Blank text) : signLast text = false := by
  rw [← signFirst_reverse]
  exact signFirst_of_blank h.reverse

theorem signFirst_append (h : Blank front) (hne : front ≠ []) :
    signFirst (front ++ text) = false := by
  cases front with
  | nil => exact absurd rfl hne
  | cons c front => exact isSign_of_isWhitespace (h c List.mem_cons_self)

theorem signLast_append (h : Blank back) (hne : back ≠ []) : signLast (text ++ back) = false := by
  rw [← signFirst_reverse, List.reverse_append]
  exact signFirst_append h.reverse (by simpa using hne)

theorem signLast_ended (h : Blank back) (hne : back ≠ []) :
    signLast (text ++ c :: back) = false := by
  rw [← List.singleton_append, ← List.append_assoc]
  exact signLast_append h hne

theorem signLast_concat (text : List Char) (c : Char) : signLast (text ++ [c]) = isSign c := by
  simp [signLast]

end Signs

/-! ## What is stripped -/

theorem stripMarkers_eq (body : List Char) :
    stripMarkers body = trim (dropClosingSign (trimEnd (dropOpeningSign (trimStart body)))) :=
  rfl

theorem signsAttached_of_nil (h : trim (content body) = []) : SignsAttached body := by
  constructor
  · rw [h]
    exact fun hsign => nomatch hsign
  · rw [h]
    exact fun hsign => nomatch hsign

theorem stripMarkers_iff_of_blank (h : Blank body) :
    stripMarkers body = trim (content body) ↔ SignsAttached body := by
  have hcontent : trim (content body) = [] := by
    rw [content, dropOpeningSign_of_not (signFirst_of_blank h),
      dropClosingSign_of_not (signLast_of_blank h), trim_blank h]
  refine iff_of_true ?_ (signsAttached_of_nil hcontent)
  rw [hcontent, stripMarkers_eq, trimStart_blank h]
  rfl

section Shapes

variable {front middle back : List Char} {a b : Char}

/-- What is left before a sign that is stripped is no longer than what is left before one that
is kept. -/
theorem length_trimEnd_stripped (hback : Blank back) (hb : isWhitespace b = false) :
    (trimEnd (middle ++ if isSign b then [] else [b])).length ≤
      (trimEnd (middle ++ if isSign b ∧ back = [] then [] else b :: back)).length := by
  cases hsign : isSign b with
  | false => simp [trimEnd_double hback hb, trimEnd_concat hb]
  | true =>
    by_cases hnil : back = []
    · simp [hnil]
    · simp only [hnil, and_false, if_false, if_true, List.append_nil, trimEnd_double hback hb,
        List.length_append, List.length_singleton]
      exact (length_trimEnd_le middle).trans (Nat.le_succ _)

/-- One character between blanks: a sign is kept where it is attached on neither side. -/
theorem stripMarkers_iff_of_single (hfront : Blank front) (hback : Blank back)
    (ha : isWhitespace a = false) :
    stripMarkers (front ++ a :: back) = trim (content (front ++ a :: back)) ↔
      SignsAttached (front ++ a :: back) := by
  have hstart : trimStart (front ++ a :: back) = a :: back := by
    rw [trimStart_append hfront, trimStart_cons ha]
  cases hsign : isSign a with
  | false =>
    have hfirst : signFirst (front ++ a :: back) = false := by
      cases front with
      | nil => exact hsign
      | cons c front => exact signFirst_append hfront (List.cons_ne_nil _ _)
    have hlast : signLast (front ++ a :: back) = false := by
      rw [← List.singleton_append, ← List.append_assoc]
      by_cases hnil : back = []
      · rw [hnil, List.append_nil, signLast_concat, hsign]
      · exact signLast_append hback hnil
    have hcontent : trim (content (front ++ a :: back)) = [a] := by
      rw [content, dropOpeningSign_of_not hfirst, dropClosingSign_of_not hlast,
        trim_single hfront hback ha]
    refine iff_of_true ?_ ⟨?_, ?_⟩
    · rw [hcontent, stripMarkers_eq, hstart, dropOpeningSign_cons, if_neg (by simp [hsign]),
        ← List.singleton_append, trimEnd_append hback, ← List.nil_append [a],
        trimEnd_concat ha, dropClosingSign_concat, if_neg (by simp [hsign])]
      have hnil : Blank [] := fun _ h => nomatch h
      exact trim_single hnil hnil ha
    · rw [hcontent]
      exact fun h => absurd h (by simp [signFirst, hsign])
    · rw [hcontent]
      exact fun h => absurd h (by simp [signLast, hsign])
  | true =>
    have hstrip : stripMarkers (front ++ a :: back) = [] := by
      rw [stripMarkers_eq, hstart, dropOpeningSign_cons, if_pos hsign, ← List.nil_append back,
        trimEnd_append hback]
      rfl
    rw [hstrip]
    by_cases hnil : front = []
    · subst hnil
      have hcontent : trim (content ([] ++ a :: back)) = [] := by
        rw [List.nil_append, content, dropOpeningSign_cons, if_pos hsign,
          dropClosingSign_of_not (signLast_of_blank hback), trim_blank hback]
      exact iff_of_true hcontent.symm (signsAttached_of_nil hcontent)
    · have hfirst : signFirst (front ++ a :: back) = false := signFirst_append hfront hnil
      by_cases hend : back = []
      · subst hend
        have hcontent : trim (content (front ++ [a])) = [] := by
          rw [content, dropOpeningSign_of_not hfirst, dropClosingSign_concat, if_pos hsign,
            trim_blank hfront]
        exact iff_of_true hcontent.symm (signsAttached_of_nil hcontent)
      · have hlast : signLast (front ++ a :: back) = false := by
          rw [← List.singleton_append, ← List.append_assoc]
          exact signLast_append hback hend
        have hcontent : trim (content (front ++ a :: back)) = [a] := by
          rw [content, dropOpeningSign_of_not hfirst, dropClosingSign_of_not hlast,
            trim_single hfront hback ha]
        rw [hcontent]
        refine iff_of_false (List.cons_ne_nil _ _).symm fun h => ?_
        have hopening := h.opening (by rw [hcontent]; simpa [signFirst] using hsign)
        rw [hfirst] at hopening
        cases hopening

theorem stripMarkers_double (hfront : Blank front) (hback : Blank back)
    (ha : isWhitespace a = false) (hb : isWhitespace b = false) :
    stripMarkers (front ++ a :: (middle ++ b :: back)) =
      trim ((if isSign a then [] else [a]) ++ middle ++ if isSign b then [] else [b]) := by
  have hdropped : dropOpeningSign (a :: (middle ++ b :: back)) =
      ((if isSign a then [] else [a]) ++ middle) ++ b :: back := by
    rw [dropOpeningSign_cons]
    split <;> simp
  rw [stripMarkers_eq, trimStart_append hfront, trimStart_cons ha, hdropped,
    trimEnd_double hback hb, dropClosingSign_concat]
  split <;> simp

theorem dropOpeningSign_double (hfront : Blank front) :
    dropOpeningSign (front ++ a :: (middle ++ b :: back)) =
      ((if isSign a ∧ front = [] then [] else front ++ [a]) ++ middle) ++ b :: back := by
  by_cases hnil : front = []
  · subst hnil
    rw [List.nil_append, dropOpeningSign_cons]
    cases isSign a <;> simp
  · rw [dropOpeningSign_of_not (signFirst_append hfront hnil)]
    simp [hnil]

theorem content_double (hfront : Blank front) (hback : Blank back) (middle : List Char) :
    content (front ++ a :: (middle ++ b :: back)) =
      (if isSign a ∧ front = [] then [] else front ++ [a]) ++ middle ++
        if isSign b ∧ back = [] then [] else b :: back := by
  rw [content, dropOpeningSign_double hfront]
  by_cases hnil : back = []
  · subst hnil
    rw [dropClosingSign_concat]
    cases isSign b <;> simp
  · rw [dropClosingSign_of_not (signLast_ended hback hnil)]
    simp [hnil]

/-- A body with two ends: its signs at the ends are stripped. -/
theorem stripMarkers_iff_of_double (hfront : Blank front) (hback : Blank back)
    (ha : isWhitespace a = false) (hb : isWhitespace b = false) :
    stripMarkers (front ++ a :: (middle ++ b :: back)) =
        trim (content (front ++ a :: (middle ++ b :: back))) ↔
      SignsAttached (front ++ a :: (middle ++ b :: back)) := by
  rw [stripMarkers_double hfront hback ha hb]
  by_cases hopen : isSign a = true ∧ front ≠ []
  · -- The sign behind the blanks is stripped; the content keeps it.
    have hcontent : trim (content (front ++ a :: (middle ++ b :: back))) =
        a :: trimEnd (middle ++ if isSign b ∧ back = [] then [] else b :: back) := by
      rw [content_double hfront hback, if_neg fun h => hopen.2 h.2]
      rw [List.append_assoc, List.append_assoc, trim_append hfront, trim_eq, List.singleton_append,
        trimStart_cons ha, trimEnd_cons ha]
    have hlength : (trimEnd (middle ++ if isSign b then [] else [b])).length ≤
        (trimEnd (middle ++ if isSign b ∧ back = [] then [] else b :: back)).length :=
      length_trimEnd_stripped hback hb
    rw [hcontent, if_pos hopen.1, List.nil_append]
    refine iff_of_false (fun heq => ?_) fun h => ?_
    · have hle := length_trim_le_trimEnd (middle ++ if isSign b = true then [] else [b])
      have hsame := congrArg List.length heq
      rw [List.length_cons] at hsame
      omega
    · have hopening := h.opening (by rw [hcontent]; exact hopen.1)
      rw [signFirst_append hfront hopen.2] at hopening
      cases hopening
  · have hfirst : ∀ text, trimStart ((if isSign a ∧ front = [] then [] else front ++ [a]) ++ text) =
        trimStart ((if isSign a then [] else [a]) ++ text) := by
      intro text
      cases hsign : isSign a with
      | true =>
        have hnil : front = [] := by
          by_contra hne
          exact hopen ⟨hsign, hne⟩
        simp [hnil]
      | false => simp [List.append_assoc, trimStart_append hfront]
    have hcontent : ∀ last, content (front ++ a :: (middle ++ b :: back)) =
        (if isSign a ∧ front = [] then [] else front ++ [a]) ++ middle ++ last →
          trim (content (front ++ a :: (middle ++ b :: back))) =
            trim ((if isSign a then [] else [a]) ++ middle ++ last) := by
      intro last heq
      rw [heq, trim_eq, List.append_assoc, hfirst, ← List.append_assoc]
      rfl
    have hdouble := content_double (a := a) (b := b) hfront hback middle
    by_cases hclose : isSign b = true ∧ back ≠ []
    · -- The sign before the blanks is stripped; the content keeps it.
      have hlast : ¬(isSign b = true ∧ back = []) := fun h => hclose.2 h.2
      rw [if_neg hlast] at hdouble
      have hkept : trim (content (front ++ a :: (middle ++ b :: back))) =
          trimStart ((if isSign a then [] else [a]) ++ middle) ++ [b] := by
        rw [hcontent _ hdouble, trim_eq_trimStart, trimEnd_double hback hb, trimStart_concat hb]
      rw [hkept, if_pos hclose.1, List.append_nil]
      refine iff_of_false (fun heq => ?_) fun h => ?_
      · have hle := length_trim_le ((if isSign a then [] else [a]) ++ middle)
        have hsame := congrArg List.length heq
        rw [List.length_append, List.length_singleton] at hsame
        omega
      · have hclosing := h.closing (by rw [hkept, signLast_concat]; exact hclose.1)
        rw [dropOpeningSign_double hfront, signLast_ended hback hclose.2] at hclosing
        cases hclosing
    · have hkept : trim (content (front ++ a :: (middle ++ b :: back))) =
          trim ((if isSign a then [] else [a]) ++ middle ++ if isSign b then [] else [b]) := by
        rw [hcontent _ hdouble, trim_eq_trimStart, trim_eq_trimStart]
        cases hsign : isSign b with
        | true =>
          have hnil : back = [] := by
            by_contra hne
            exact hclose ⟨hsign, hne⟩
          simp [hnil]
        | false =>
          have hlast : ¬(false = true ∧ back = []) := fun h => Bool.false_ne_true h.1
          rw [if_neg hlast, if_neg Bool.false_ne_true, trimEnd_double hback hb,
            trimEnd_concat hb]
      refine iff_of_true hkept.symm ⟨fun hsign => ?_, fun hsign => ?_⟩
      · cases ha' : isSign a with
        | true =>
          have hnil : front = [] := by
            by_contra hne
            exact hopen ⟨ha', hne⟩
          rw [hnil]
          exact ha'
        | false =>
          rw [hkept, ha'] at hsign
          rw [trim_eq, if_neg Bool.false_ne_true, List.append_assoc, List.singleton_append,
            trimStart_cons ha, trimEnd_cons ha] at hsign
          exact absurd hsign (by simp [signFirst, ha'])
      · cases hb' : isSign b with
        | true =>
          have hnil : back = [] := by
            by_contra hne
            exact hclose ⟨hb', hne⟩
          rw [dropOpeningSign_double hfront, hnil, signLast_concat]
          exact hb'
        | false =>
          rw [hkept, hb'] at hsign
          rw [trim_eq_trimStart, if_neg Bool.false_ne_true, trimEnd_concat hb,
            trimStart_concat hb, signLast_concat, hb'] at hsign
          cases hsign

end Shapes

/-- The signs that are stripped are the ones attached to the delimiters exactly when no other sign
stands at an end. -/
theorem stripMarkers_eq_iff (body : List Char) :
    stripMarkers body = trim (content body) ↔ SignsAttached body := by
  cases shape body with
  | blank hfront => exact stripMarkers_iff_of_blank hfront
  | single hfront hback ha => exact stripMarkers_iff_of_single hfront hback ha
  | double hfront hback ha hb => exact stripMarkers_iff_of_double hfront hback ha hb

end PhloTransform.Dbt.JinjaScan
