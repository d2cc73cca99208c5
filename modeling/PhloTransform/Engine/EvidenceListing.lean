import PhloTransform.Engine.AuditEvidence

/-!
# The newest record after an import

Records are listed by instant, records of one instant by the text of their time, and the one
that was stored last first.

Main results:

- Theorem `head?_recent_append_eq`: whether a new record is listed first.
-/

namespace PhloTransform.Engine

section Listing

variable [Rfc3339]

/-- A record that is stored now is listed before one that is there. -/
def ListedBefore (new old : String) : Prop :=
  instant old < instant new ∨ (instant old = instant new ∧ old ≤ new)

instance (new old : String) : Decidable (ListedBefore new old) :=
  inferInstanceAs (Decidable (_ ∨ _))

variable {T : Type*} {timestamp : T → String} {rows : List T} {row first : T}

/-- The row listed first is at least as new as the others. -/
theorem instant_le_of_head? (h : ∀ other ∈ rows, IsTimestamp (timestamp other))
    (hfirst : (recent timestamp rows).head? = some first) {other : T} (hother : other ∈ rows) :
    instant (timestamp other) ≤ instant (timestamp first) := by
  have hsorted : (recent timestamp rows).Pairwise
      fun a b => instant (timestamp b) ≤ instant (timestamp a) := by
    rw [recent, newestFirst_eq (by simpa using h)]
    exact List.pairwise_insertionSort _ _
  obtain ⟨rest, hlist⟩ := List.head?_eq_some_iff.1 hfirst
  rw [hlist] at hsorted
  have hmem : other ∈ first :: rest := hlist ▸ mem_recent.2 hother
  rcases List.mem_cons.1 hmem with rfl | hrest
  · exact le_rfl
  · exact List.rel_of_pairwise_cons hsorted hrest

theorem mem_of_head?_recent (hfirst : (recent timestamp rows).head? = some first) : first ∈ rows :=
  mem_recent.1 (List.mem_of_head? hfirst)

/-- Rows of one instant are listed by the text of their time. -/
theorem recent_of_same_instant (h : ∀ other ∈ rows, IsTimestamp (timestamp other)) {i : Int}
    (hsame : ∀ other ∈ rows, instant (timestamp other) = i) :
    recent timestamp rows = rows.reverse.insertionSort fun a b => timestamp b ≤ timestamp a := by
  rw [recent, newestFirst_eq (by simpa using h)]
  apply List.Pairwise.insertionSort_eq
  refine List.pairwise_of_forall_mem_list fun a ha b hb => ?_
  have hmem : ∀ c ∈ rows.reverse.insertionSort fun a b => timestamp b ≤ timestamp a,
      instant (timestamp c) = i := by
    intro c hc
    exact hsame c (by simpa using hc)
  rw [hmem a ha, hmem b hb]

theorem head?_recent_filter (h : ∀ other ∈ rows, IsTimestamp (timestamp other))
    (hfirst : (recent timestamp rows).head? = some first) {p : T → Bool} (hp : p first = true) :
    (recent timestamp (rows.filter p)).head? = some first := by
  rw [← filter_recent p h]
  obtain ⟨rest, hlist⟩ := List.head?_eq_some_iff.1 hfirst
  rw [hlist, List.filter_cons_of_pos hp]
  rfl

/-- Of two rows of one instant the later text is listed first, or the row stored last. -/
theorem head?_recent_append_of_eq (h : ∀ other ∈ rows ++ [row], IsTimestamp (timestamp other))
    (hfirst : (recent timestamp rows).head? = some first)
    (hsame : instant (timestamp first) = instant (timestamp row)) :
    (recent timestamp (rows ++ [row])).head? =
      if timestamp first ≤ timestamp row then some row else some first := by
  have hold : ∀ other ∈ rows, IsTimestamp (timestamp other) :=
    fun other hother => h other (List.mem_append_left _ hother)
  let p := fun other : T => decide (instant (timestamp other) = instant (timestamp row))
  have hkept := head?_recent_filter hold hfirst (p := p) (decide_eq_true hsame)
  have hheads : (recent timestamp (rows ++ [row])).head? =
      (recent timestamp ((rows ++ [row]).filter p)).head? := by
    rcases head?_recent_append h with hrow | hold'
    · rw [hrow, head?_recent_filter h hrow (decide_eq_true rfl)]
    · rw [hfirst] at hold'
      rw [hold', head?_recent_filter h hold' (decide_eq_true hsame)]
  have hpart : (rows ++ [row]).filter p = rows.filter p ++ [row] := by
    rw [List.filter_append]
    congr 1
    exact List.filter_cons_of_pos (decide_eq_true rfl)
  have hinstants : ∀ other ∈ rows.filter p, instant (timestamp other) = instant (timestamp row) :=
    fun other hother => of_decide_eq_true (List.mem_filter.1 hother).2
  have hstamps : ∀ other ∈ rows.filter p, IsTimestamp (timestamp other) :=
    fun other hother => hold other (List.mem_filter.1 hother).1
  rw [hheads, hpart, recent_of_same_instant (i := instant (timestamp row)),
    List.reverse_append, List.reverse_singleton, List.singleton_append, List.insertionSort_cons]
  · rw [recent_of_same_instant hstamps hinstants] at hkept
    obtain ⟨rest, hlist⟩ := List.head?_eq_some_iff.1 hkept
    rw [hlist, List.orderedInsert_cons]
    split <;> rfl
  · intro other hother
    rcases List.mem_append.1 hother with hmem | hnew
    · exact hstamps other hmem
    · rw [List.mem_singleton.1 hnew]
      exact h row (by simp)
  · intro other hother
    rcases List.mem_append.1 hother with hmem | hnew
    · exact hinstants other hmem
    · rw [List.mem_singleton.1 hnew]

/-- A row that is stored now is listed first when it is listed before the first one. -/
theorem head?_recent_append_eq (h : ∀ other ∈ rows ++ [row], IsTimestamp (timestamp other)) :
    (recent timestamp (rows ++ [row])).head? =
      match (recent timestamp rows).head? with
      | none => some row
      | some first =>
        if ListedBefore (timestamp row) (timestamp first) then some row else some first := by
  have hold : ∀ other ∈ rows, IsTimestamp (timestamp other) :=
    fun other hother => h other (List.mem_append_left _ hother)
  cases hfirst : (recent timestamp rows).head? with
  | none =>
    have hnil : rows = [] := by
      rw [List.eq_nil_iff_forall_not_mem]
      intro other hother
      have hmem : other ∈ recent timestamp rows := mem_recent.2 hother
      rw [List.head?_eq_none_iff.1 hfirst] at hmem
      cases hmem
    rw [hnil]
    exact head?_recent_of_newest (by simpa [hnil] using h) (by simp) (by simp)
  | some first =>
    dsimp only
    rcases lt_trichotomy (instant (timestamp first)) (instant (timestamp row)) with
      hlt | heq | hgt
    · have hbefore : ListedBefore (timestamp row) (timestamp first) := Or.inl hlt
      rw [if_pos hbefore]
      refine head?_recent_of_newest h (by simp) fun other hother => ?_
      rcases List.mem_append.1 hother with hmem | hnew
      · exact Or.inr ((instant_le_of_head? hold hfirst hmem).trans_lt hlt)
      · exact Or.inl (List.mem_singleton.1 hnew)
    · rw [head?_recent_append_of_eq h hfirst heq]
      simp [ListedBefore, heq]
    · have hnot : ¬ListedBefore (timestamp row) (timestamp first) := by
        rintro (hlt | ⟨heq, -⟩)
        · exact absurd hlt hgt.not_gt
        · exact absurd heq hgt.ne'
      rw [if_neg hnot]
      rcases head?_recent_append h with hrow | hsame
      · have hle := instant_le_of_head? h hrow
          (List.mem_append_left [row] (mem_of_head?_recent hfirst))
        exact absurd hle (not_le.2 hgt)
      · rw [hsame, hfirst]

end Listing

end PhloTransform.Engine
