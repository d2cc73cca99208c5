import PhloTransform.Library.JsonText
import PhloTransform.Library.Lines

/-!
# Texts between marks

Codes that are joined by a separator and ended by a stop can be read back while every code ends
where a mark comes.  A text that is scanned can hold the stop itself, as long as the scan is not at
rest there: texts that close what they open are read back from any separator that starts with the
stop.

Main results:

- Theorem `intercalate_stop_inj`: codes between separators, up to a stop.
- Theorem `intercalate_closed_inj`: closed texts between separators.
-/

namespace PhloTransform.Library

/-! ## Codes that end at a mark -/

section Marks

variable {α : Type*} {p : α → Prop} {code : α → List Char} {marks : Char → Prop}

/-- Codes that are read up to the first mark behind them. -/
def EndsAt (marks : Char → Prop) (p : α → Prop) (code : α → List Char) : Prop :=
  ∀ a b, p a → p b → ∀ x y s t, marks x → marks y →
    code a ++ x :: s = code b ++ y :: t → a = b ∧ x :: s = y :: t

theorem PrefixCode.endsAt (h : PrefixCode code) : EndsAt marks p code :=
  fun a b _ _ _ _ _ _ _ _ heq => h a b _ _ heq

theorem EndsAt.mono {marks' : Char → Prop} (h : EndsAt marks p code)
    (hmarks : ∀ c, marks' c → marks c) : EndsAt marks' p code :=
  fun a b ha hb x y s t hx hy heq => h a b ha hb x y s t (hmarks x hx) (hmarks y hy) heq

theorem endsAt_of_free : EndsAt marks (fun text : List Char => ∀ c ∈ text, ¬ marks c) id := by
  intro a b ha hb x y s t hx hy h
  rw [id, id] at h
  induction a generalizing b with
  | nil =>
    cases b with
    | nil => exact ⟨rfl, h⟩
    | cons c b =>
      rw [List.nil_append, List.cons_append] at h
      exact absurd (List.head_eq_of_cons_eq h ▸ hx) (hb c List.mem_cons_self)
  | cons c a ih =>
    cases b with
    | nil =>
      rw [List.nil_append, List.cons_append] at h
      exact absurd (List.head_eq_of_cons_eq h ▸ hy) (ha c List.mem_cons_self)
    | cons d b =>
      rw [List.forall_mem_cons] at ha hb
      simp only [List.cons_append, List.cons.injEq] at h
      obtain ⟨rfl, hrest⟩ := ih b ha.2 hb.2 h.2
      exact ⟨by rw [h.1], hrest⟩

variable {mark stop : Char} {separator : List Char}

/-- The first of several codes, and what comes behind it. -/
theorem intercalate_cons_stop (a : α) (l : List α) (s : List Char) :
    List.intercalate (mark :: separator) ((a :: l).map code) ++ stop :: s =
      code a ++ (if l = [] then stop :: s
        else mark :: (separator ++
          (List.intercalate (mark :: separator) (l.map code) ++ stop :: s))) := by
  cases l with
  | nil => simp
  | cons b l => simp [List.intercalate_cons_cons]

/-- Codes between separators are read back up to a stop that no code begins with. -/
theorem intercalate_stop_inj (h : EndsAt (fun c => c = mark ∨ c = stop) p code) (hne : mark ≠ stop)
    (hstart : ∀ a, p a → ∃ c rest, code a = c :: rest ∧ c ≠ stop) {l r : List α}
    (hl : ∀ a ∈ l, p a) (hr : ∀ b ∈ r, p b) {s t : List Char}
    (heq : List.intercalate (mark :: separator) (l.map code) ++ stop :: s =
      List.intercalate (mark :: separator) (r.map code) ++ stop :: t) : l = r ∧ s = t := by
  have hfirst : ∀ a, p a → ∀ l s rest, List.intercalate (mark :: separator) ((a :: l).map code) ++
      stop :: s ≠ stop :: rest := by
    intro a ha l s rest hcons
    obtain ⟨c, tail, hcode, hc⟩ := hstart a ha
    rw [intercalate_cons_stop, hcode, List.cons_append] at hcons
    exact hc (List.head_eq_of_cons_eq hcons)
  induction l generalizing r with
  | nil =>
    cases r with
    | nil => exact ⟨rfl, by simpa using heq⟩
    | cons b r => exact absurd heq.symm (hfirst b (hr b List.mem_cons_self) r t s)
  | cons a l ih =>
    cases r with
    | nil => exact absurd heq (hfirst a (hl a List.mem_cons_self) l s t)
    | cons b r =>
      rw [List.forall_mem_cons] at hl hr
      rw [intercalate_cons_stop, intercalate_cons_stop] at heq
      split_ifs at heq with hlnil hrnil hrnil
      · subst hlnil hrnil
        obtain ⟨rfl, hrest⟩ := h a b hl.1 hr.1 _ _ _ _ (.inr rfl) (.inr rfl) heq
        exact ⟨rfl, List.tail_eq_of_cons_eq hrest⟩
      · obtain ⟨-, hrest⟩ := h a b hl.1 hr.1 _ _ _ _ (.inr rfl) (.inl rfl) heq
        exact absurd (List.head_eq_of_cons_eq hrest).symm hne
      · obtain ⟨-, hrest⟩ := h a b hl.1 hr.1 _ _ _ _ (.inl rfl) (.inr rfl) heq
        exact absurd (List.head_eq_of_cons_eq hrest) hne
      · obtain ⟨rfl, hrest⟩ := h a b hl.1 hr.1 _ _ _ _ (.inl rfl) (.inl rfl) heq
        obtain ⟨rfl, hst⟩ := ih hl.2 hr.2
          (List.append_cancel_left (List.tail_eq_of_cons_eq hrest))
        exact ⟨rfl, hst⟩

end Marks

/-! ## Closed texts -/

section Closed

variable {σ : Type*} (step : σ → Char → σ) (rest : σ) (stop : Char)

/-- A text after which the scan is at rest, and that has no stop where the scan is at rest. -/
structure Closed (text : List Char) : Prop where
  closes : text.foldl step rest = rest
  covered : ∀ before after, text = before ++ stop :: after → before.foldl step rest ≠ rest

variable {step rest stop} {x y s t : List Char}

theorem Closed.ne_append (hx : Closed step rest stop x) (hy : Closed step rest stop y) :
    x ≠ y ++ stop :: t :=
  fun h => hx.covered y t h hy.closes

theorem Closed.cut_inj (hx : Closed step rest stop x) (hy : Closed step rest stop y)
    (h : x ++ stop :: s = y ++ stop :: t) : x = y ∧ s = t := by
  rcases List.append_eq_append_iff.1 h with ⟨middle, hy', hs⟩ | ⟨middle, hx', ht⟩
  · cases middle with
    | nil => exact ⟨by simpa using hy'.symm, by simpa using hs⟩
    | cons c middle =>
      rw [List.cons_append] at hs
      rw [← List.head_eq_of_cons_eq hs] at hy'
      exact absurd hy' (hy.ne_append hx)
  · cases middle with
    | nil => exact ⟨by simpa using hx', by simpa using ht.symm⟩
    | cons c middle =>
      rw [List.cons_append] at ht
      rw [← List.head_eq_of_cons_eq ht] at hx'
      exact absurd hx' (hx.ne_append hy)

/-- Closed texts between separators that start with the stop are read back. -/
theorem intercalate_closed_inj {separator : List Char} {xs ys : List (List Char)}
    (hxs : ∀ x ∈ xs, x ≠ [] ∧ Closed step rest stop x)
    (hys : ∀ y ∈ ys, y ≠ [] ∧ Closed step rest stop y)
    (h : List.intercalate (stop :: separator) xs = List.intercalate (stop :: separator) ys) :
    xs = ys := by
  have hne : ∀ {x : List Char} {xs : List (List Char)}, x ≠ [] →
      List.intercalate (stop :: separator) (x :: xs) ≠ [] := by
    intro x xs hx
    cases xs with
    | nil => simpa using hx
    | cons x' xs => simp [List.intercalate_cons_cons, hx]
  induction xs generalizing ys with
  | nil =>
    cases ys with
    | nil => rfl
    | cons y ys => exact absurd h.symm (hne (hys y List.mem_cons_self).1)
  | cons x xs ih =>
    cases ys with
    | nil => exact absurd h (hne (hxs x List.mem_cons_self).1)
    | cons y ys =>
      rw [List.forall_mem_cons] at hxs hys
      obtain ⟨⟨-, hx⟩, hxs⟩ := hxs
      obtain ⟨⟨-, hy⟩, hys⟩ := hys
      cases xs with
      | nil =>
        cases ys with
        | nil => simpa using h
        | cons y' ys =>
          rw [List.intercalate_cons_cons, List.intercalate_singleton, List.append_assoc,
            List.cons_append] at h
          exact absurd h (hx.ne_append hy)
      | cons x' xs =>
        cases ys with
        | nil =>
          rw [List.intercalate_cons_cons, List.intercalate_singleton, List.append_assoc,
            List.cons_append] at h
          exact absurd h.symm (hy.ne_append hx)
        | cons y' ys =>
          rw [List.intercalate_cons_cons, List.intercalate_cons_cons, List.append_assoc,
            List.append_assoc, List.cons_append, List.cons_append] at h
          obtain ⟨rfl, hrest⟩ := hx.cut_inj hy h
          rw [ih hxs hys (List.append_cancel_left hrest)]

end Closed

end PhloTransform.Library
