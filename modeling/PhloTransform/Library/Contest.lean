import PhloTransform.Library.Table

/-!
# Sequences of guarded writes to one row

Guarded writes to one key are a contest: each new row either takes the place of
the stored one or is dropped.  A row that every other row gives way to survives
in any order of the writes; a cycle of three has no such row, and two of its
orders leave different ones.

Main results:

- Theorem `Table.get?_foldl_upsertWhen`: guarded writes to one key are a contest.
- Theorem `Champion.foldl_contend`: a champion survives in every order.
-/

namespace PhloTransform.Library

variable {Row : Type*} (accepts : Row → Row → Bool)
variable {rows : List Row}
variable {w r : Row}

/-- One guarded write to a row that may not exist yet. -/
def contend : Option Row → Row → Option Row
  | none, new => some new
  | some old, new => some (if accepts old new then new else old)

theorem Table.get?_foldl_upsertWhen {Key : Type*} [DecidableEq Key] {key : Row → Key} {k : Key}
    (h : ∀ r ∈ rows, key r = k) (t : Table key) :
    (rows.foldl (Table.upsertWhen accepts) t).get? k = rows.foldl (contend accepts) (t.get? k) := by
  induction rows generalizing t with
  | nil => rfl
  | cons r rows ih =>
    have hkey : key r = k := h r (by simp)
    rw [List.foldl_cons, List.foldl_cons, ih fun s hs => h s (by simp [hs])]
    congr 1
    rw [← hkey, Table.get?_upsertWhen_self]
    cases t.get? (key r) with
    | none => rfl
    | some old => by_cases hacc : accepts old r <;> simp [contend, hacc]

/-- A contest between images is the image of the contest. -/
theorem foldl_contend_map {α : Type*} {accepts' : α → α → Bool} {f : α → Row}
    (h : ∀ a b, accepts (f a) (f b) = accepts' a b) (rows : List α) (start : Option α) :
    (rows.map f).foldl (contend accepts) (start.map f) =
      (rows.foldl (contend accepts') start).map f := by
  induction rows generalizing start with
  | nil => rfl
  | cons r rows ih =>
    rw [List.map_cons, List.foldl_cons, List.foldl_cons, ← ih]
    congr 1
    cases start with
    | none => rfl
    | some old => by_cases hacc : accepts' old r <;> simp [contend, h, hacc]

/-- Every other row gives way to `w`, and `w` gives way to none of them. -/
structure Champion (rows : List Row) (w : Row) : Prop where
  mem : w ∈ rows
  beats : ∀ r ∈ rows, r ≠ w → accepts r w = true ∧ accepts w r = false

variable {accepts}

theorem Champion.of_perm {rows' : List Row} (h : Champion accepts rows w) (hperm : rows'.Perm rows)
    : Champion accepts rows' w where
  mem := hperm.mem_iff.2 h.mem
  beats := fun r hr => h.beats r (hperm.mem_iff.1 hr)

theorem foldl_contend_of_mem (h : rows.foldl (contend accepts) none = some r) : r ∈ rows := by
  have hfold : ∀ (rows : List Row) (start : Option Row),
      rows.foldl (contend accepts) start = some r → start = some r ∨ r ∈ rows := by
    intro rows
    induction rows with
    | nil => exact fun start h => Or.inl h
    | cons new rows ih =>
      intro start h
      rcases ih _ h with hstart | hmem
      · cases start with
        | none => exact Or.inr (by simp [Option.some.inj hstart])
        | some old =>
          have hkept : (if accepts old new then new else old) = r :=
            Option.some.inj hstart
          split at hkept
          · exact Or.inr (by simp [hkept])
          · exact Or.inl (congrArg some hkept)
      · exact Or.inr (List.mem_cons_of_mem _ hmem)
  exact (hfold rows none h).resolve_left (by simp)

theorem Champion.foldl_contend_self {post : List Row} (h : Champion accepts rows w)
    (hpost : ∀ r ∈ post, r ∈ rows) : post.foldl (contend accepts) (some w) = some w := by
  induction post with
  | nil => rfl
  | cons r post ih =>
    have hkept : contend accepts (some w) r = some w := by
      by_cases hr : r = w
      · simp [contend, hr]
      · simp [contend, (h.beats r (hpost r (by simp)) hr).2]
    rw [List.foldl_cons, hkept]
    exact ih fun s hs => hpost s (by simp [hs])

theorem Champion.foldl_contend (h : Champion accepts rows w) :
    rows.foldl (contend accepts) none = some w := by
  obtain ⟨pre, post, hsplit⟩ := List.append_of_mem h.mem
  have htaken : contend accepts (pre.foldl (contend accepts) none) w = some w := by
    cases hstored : pre.foldl (contend accepts) none with
    | none => rfl
    | some old =>
      have hold : old ∈ rows := by
        rw [hsplit]
        exact List.mem_append_left _ (foldl_contend_of_mem hstored)
      by_cases heq : old = w
      · simp [contend, heq]
      · simp [contend, (h.beats old hold heq).1]
  calc rows.foldl (contend accepts) none
      = post.foldl (contend accepts) (contend accepts (pre.foldl (contend accepts) none) w) := by
        rw [hsplit, List.foldl_append, List.foldl_cons]
    _ = post.foldl (contend accepts) (some w) := by rw [htaken]
    _ = some w := h.foldl_contend_self fun r hr => by simp [hsplit, hr]

/-- Of two rows one gives way to the other, and giving way is transitive. -/
structure Transitive (accepts : Row → Row → Bool) (rows : List Row) : Prop where
  decided : ∀ r ∈ rows, ∀ s ∈ rows, r ≠ s → accepts s r = !accepts r s
  trans : ∀ r ∈ rows, ∀ s ∈ rows, ∀ t ∈ rows, r ≠ s → s ≠ t → r ≠ t →
    accepts r s = true → accepts s t = true → accepts r t = true

theorem Transitive.tail (h : Transitive accepts (r :: rows)) :
    Transitive accepts rows where
  decided := fun a ha b hb => h.decided a (by simp [ha]) b (by simp [hb])
  trans := fun a ha b hb c hc => h.trans a (by simp [ha]) b (by simp [hb]) c (by simp [hc])

theorem exists_champion (h : Transitive accepts rows) (hne : rows ≠ []) :
    ∃ w, Champion accepts rows w := by
  induction rows with
  | nil => exact absurd rfl hne
  | cons r rows ih =>
    by_cases hrows : rows = []
    · exact ⟨r, by simp [hrows], by simp [hrows]⟩
    obtain ⟨w, hmem, hbeats⟩ := ih h.tail hrows
    have hw : w ∈ r :: rows := List.mem_cons_of_mem _ hmem
    by_cases hr : r = w
    · exact ⟨w, hw, by simpa [hr] using hbeats⟩
    by_cases hwin : accepts r w = true
    · -- the champion of the rest also beats the first row
      refine ⟨w, hw, ?_⟩
      intro s hs hsw
      rcases List.mem_cons.1 hs with rfl | hs
      · have hdecided := h.decided s (by simp) w hw hr
        exact ⟨hwin, by rw [hdecided, hwin]; rfl⟩
      · exact hbeats s hs hsw
    · -- the first row beats the champion, hence everything
      have hlose : accepts w r = true := by
        rw [h.decided r (by simp) w hw hr]
        simp [hwin]
      refine ⟨r, by simp, ?_⟩
      intro s hs hsr
      have hsmem : s ∈ rows := (List.mem_cons.1 hs).resolve_left hsr
      have hto : accepts s r = true := by
        by_cases hsw : s = w
        · rw [hsw]
          exact hlose
        · exact h.trans s hs w hw r (by simp) hsw (Ne.symm hr) hsr
            (hbeats s hsmem hsw).1 hlose
      exact ⟨hto, by rw [h.decided s hs r (by simp) hsr, hto]; rfl⟩

theorem foldl_contend_cycle {a b c : Row} (hab : accepts a b = true)
    (hbc : accepts b c = true) (hca : accepts c a = true) :
    [a, b, c].foldl (contend accepts) none = some c ∧
      [b, c, a].foldl (contend accepts) none = some a := by
  simp [contend, hab, hbc, hca]

end PhloTransform.Library
