import Mathlib.Data.List.Nodup
import Mathlib.Tactic.Common

/-!
# Depth-first closing of a directed graph

A state tells which nodes are closed, and a node can be closed.  Propagation
walks depth first from a node: every open successor is closed and walked in
turn, closed successors are passed over.  The recursion carries fuel, and fuel
for the number of open nodes is always enough, because each nested walk closes
one more node.

Main results:

- Theorem `Marker.propagate_spec`: the walk closes a duplicate-free list of
  nodes that were open, and every successor of a walked node ends up closed.
-/

namespace PhloTransform.Library

/-- A state that records which nodes are closed. -/
structure Marker (Node State : Type*) [DecidableEq Node] where
  closed : State → Node → Bool
  close : State → Node → State
  closed_close : ∀ s i j, closed (close s i) j = (decide (j = i) || closed s j)

namespace Marker

variable {Node State : Type*} [DecidableEq Node]
variable (m : Marker Node State) (succ : Node → List Node)
variable {roots new univ : List Node} {s s' : State} {j c : Node}

/-- Handle one successor: pass over a closed one, close and walk an open one. -/
def visit (walk : Node → State → State × List Node) (acc : State × List Node)
    (c : Node) : State × List Node :=
  if m.closed acc.1 c then acc
  else
    let inner := walk c (m.close acc.1 c)
    (inner.1, acc.2 ++ c :: inner.2)

/-- Close everything open below `i`; the list holds the newly closed nodes in
the order of the walk. -/
def propagate : Nat → Node → State → State × List Node
  | 0, _, s => (s, [])
  | fuel + 1, i, s => (succ i).foldl (m.visit (propagate fuel)) (s, [])

/-- A path of open nodes, both ends included. -/
inductive OpenPath (s : State) : Node → Node → Prop
  | here {c : Node} : m.closed s c = false → OpenPath s c c
  | step {c d j : Node} : m.closed s c = false → d ∈ succ c →
      OpenPath s d j → OpenPath s c j

/-- What a walk from a list of roots has done. -/
structure Walked (roots : List Node) (s s' : State) (new : List Node) : Prop where
  state_eq : s' = new.foldl m.close s
  nodup : new.Nodup
  was_open : ∀ j ∈ new, m.closed s j = false
  reached : ∀ j ∈ new, ∃ c ∈ roots, m.OpenPath succ s c j
  roots_closed : ∀ c ∈ roots, m.closed s' c = true
  succ_closed : ∀ j ∈ new, ∀ c ∈ succ j, m.closed s' c = true

/-! ## Closing only adds closed nodes -/

theorem closed_foldl_close (new : List Node) (s : State) (j : Node) :
    m.closed (new.foldl m.close s) j = (decide (j ∈ new) || m.closed s j) := by
  induction new generalizing s with
  | nil => simp
  | cons i new ih =>
    rw [List.foldl_cons, ih, m.closed_close]
    by_cases hj : j = i <;> simp [hj]

variable {m succ}

theorem Walked.closed_iff (h : m.Walked succ roots s s' new) (j : Node) :
    m.closed s' j = true ↔ j ∈ new ∨ m.closed s j = true := by
  rw [h.state_eq, closed_foldl_close]
  simp

theorem Walked.closed_of_closed (h : m.Walked succ roots s s' new) (hj : m.closed s j = true) :
    m.closed s' j = true :=
  (h.closed_iff j).2 (Or.inr hj)

theorem OpenPath.mono {t : State} (hst : ∀ j, m.closed t j = false → m.closed s j = false)
    (h : m.OpenPath succ t c j) : m.OpenPath succ s c j := by
  induction h with
  | here hc => exact .here (hst _ hc)
  | step hc hd _ ih => exact .step (hst _ hc) hd ih

theorem OpenPath.eq_or_last (h : m.OpenPath succ s c j) :
    j = c ∨ ∃ d, m.OpenPath succ s c d ∧ j ∈ succ d := by
  induction h with
  | here => exact Or.inl rfl
  | step hc hd hpath ih =>
    rename_i c d j
    rcases ih with rfl | ⟨e, he, hj⟩
    · exact Or.inr ⟨c, .here hc, hd⟩
    · exact Or.inr ⟨e, .step hc hd he, hj⟩

theorem Walked.mem_of_openPath (h : m.Walked succ roots s s' new) (hpath : m.OpenPath succ s c j)
    (hc : m.closed s' c = true) : j ∈ new := by
  induction hpath with
  | here hopen =>
    rcases (h.closed_iff _).1 hc with hnew | hold
    · exact hnew
    · simp [hopen] at hold
  | step hopen hd _ ih =>
    rcases (h.closed_iff _).1 hc with hnew | hold
    · exact ih (h.succ_closed _ hnew _ hd)
    · simp [hopen] at hold

theorem Walked.mem_iff (h : m.Walked succ roots s s' new) (j : Node) :
    j ∈ new ↔ ∃ c ∈ roots, m.OpenPath succ s c j := by
  constructor
  · exact h.reached j
  · rintro ⟨c, hc, hpath⟩
    exact h.mem_of_openPath hpath (h.roots_closed c hc)

theorem Walked.mem_roots_or_succ (h : m.Walked succ roots s s' new) (hj : j ∈ new) :
    j ∈ roots ∨ ∃ d ∈ new, j ∈ succ d := by
  obtain ⟨c, hc, hpath⟩ := h.reached j hj
  rcases hpath.eq_or_last with rfl | ⟨d, hd, hsucc⟩
  · exact Or.inl hc
  · exact Or.inr ⟨d, (h.mem_iff d).2 ⟨c, hc, hd⟩, hsucc⟩

/-! ## Composing walks -/

theorem Walked.skip (hroots : ∀ c ∈ roots, m.closed s c = true) : m.Walked succ roots s s [] where
  state_eq := rfl
  nodup := List.nodup_nil
  was_open := by simp
  reached := by simp
  roots_closed := hroots
  succ_closed := by simp

theorem Walked.append {roots₁ roots₂ : List Node} {t u : State} {new₁ new₂ : List Node}
    (h₁ : m.Walked succ roots₁ s t new₁) (h₂ : m.Walked succ roots₂ t u new₂) :
    m.Walked succ (roots₁ ++ roots₂) s u (new₁ ++ new₂) where
  state_eq := by
    rw [List.foldl_append, ← h₁.state_eq, h₂.state_eq]
  nodup := by
    refine List.nodup_append.2 ⟨h₁.nodup, h₂.nodup, ?_⟩
    intro a ha b hb hab
    subst hab
    have hclosed : m.closed t a = true := (h₁.closed_iff a).2 (Or.inl ha)
    have hopen := h₂.was_open a hb
    simp [hclosed] at hopen
  was_open := by
    intro j hj
    rcases List.mem_append.1 hj with hj | hj
    · exact h₁.was_open j hj
    · cases hs : m.closed s j with
      | false => rfl
      | true =>
        have hopen := h₂.was_open j hj
        simp [h₁.closed_of_closed hs] at hopen
  reached := by
    intro j hj
    rcases List.mem_append.1 hj with hj | hj
    · obtain ⟨c, hc, hpath⟩ := h₁.reached j hj
      exact ⟨c, List.mem_append_left _ hc, hpath⟩
    · obtain ⟨c, hc, hpath⟩ := h₂.reached j hj
      refine ⟨c, List.mem_append_right _ hc, hpath.mono ?_⟩
      intro i hi
      cases hs : m.closed s i with
      | false => rfl
      | true => simp [h₁.closed_of_closed hs] at hi
  roots_closed := by
    intro c hc
    rcases List.mem_append.1 hc with hc | hc
    · exact h₂.closed_of_closed (h₁.roots_closed c hc)
    · exact h₂.roots_closed c hc
  succ_closed := by
    intro j hj c hc
    rcases List.mem_append.1 hj with hj | hj
    · exact h₂.closed_of_closed (h₁.succ_closed j hj c hc)
    · exact h₂.succ_closed j hj c hc

/-- Closing an open root and walking its successors walks the root. -/
theorem Walked.root (hopen : m.closed s c = false) (h : m.Walked succ (succ c) (m.close s c) s' new)
    : m.Walked succ [c] s s' (c :: new) where
  state_eq := by rw [List.foldl_cons, h.state_eq]
  nodup := by
    refine List.nodup_cons.2 ⟨fun hc => ?_, h.nodup⟩
    have := h.was_open c hc
    simp [m.closed_close] at this
  was_open := by
    intro j hj
    rcases List.mem_cons.1 hj with rfl | hj
    · exact hopen
    · have := h.was_open j hj
      simp only [m.closed_close, Bool.or_eq_false_iff] at this
      exact this.2
  reached := by
    intro j hj
    refine ⟨c, List.mem_singleton_self c, ?_⟩
    rcases List.mem_cons.1 hj with rfl | hj
    · exact .here hopen
    · obtain ⟨d, hd, hpath⟩ := h.reached j hj
      refine .step hopen hd (hpath.mono ?_)
      intro i hi
      simp only [m.closed_close, Bool.or_eq_false_iff] at hi
      exact hi.2
  roots_closed := by
    intro d hd
    rw [List.mem_singleton.1 hd]
    exact h.closed_of_closed (by simp [m.closed_close])
  succ_closed := by
    intro j hj d hd
    rcases List.mem_cons.1 hj with rfl | hj
    · exact h.roots_closed d hd
    · exact h.succ_closed j hj d hd

/-! ## Fuel -/

variable (m) in
/-- The open nodes of a finite universe. -/
def openNodes (univ : List Node) (s : State) : List Node :=
  univ.filter fun j => !m.closed s j

theorem length_openNodes_close_lt (hc : c ∈ univ) (hopen : m.closed s c = false) :
    (m.openNodes univ (m.close s c)).length < (m.openNodes univ s).length := by
  have hsub : (m.openNodes univ (m.close s c)) =
      (m.openNodes univ s).filter fun j => decide (j ≠ c) := by
    simp only [openNodes, List.filter_filter]
    congr 1
    funext j
    by_cases hj : j = c <;> simp [m.closed_close, hj]
  rw [hsub, List.length_filter_lt_length_iff_exists]
  exact ⟨c, by simp [openNodes, hc, hopen], by simp⟩

theorem Walked.length_openNodes_le (h : m.Walked succ roots s s' new) :
    (m.openNodes univ s').length ≤ (m.openNodes univ s).length := by
  refine (List.monotone_filter_right univ ?_).length_le
  intro j hj
  cases hs : m.closed s j with
  | false => simp
  | true => simp [h.closed_of_closed hs] at hj

/-- The loop over the successors of one node, given that the nested walks are
right. -/
theorem foldl_visit_walked {fuel : Nat} {walk : Node → State → State × List Node}
    (hwalk : ∀ c s, (m.openNodes univ s).length ≤ fuel →
      m.Walked succ (succ c) s (walk c s).1 (walk c s).2) (roots : List Node)
    (hroots : ∀ c ∈ roots, c ∈ univ) (s : State) (pre : List Node)
    (hfuel : (m.openNodes univ s).length ≤ fuel + 1) :
    ∃ new, (roots.foldl (m.visit walk) (s, pre)).2 = pre ++ new ∧
      m.Walked succ roots s (roots.foldl (m.visit walk) (s, pre)).1 new := by
  induction roots generalizing s pre with
  | nil => exact ⟨[], by simp, Walked.skip (by simp)⟩
  | cons c roots ih =>
    have hrest : ∀ d ∈ roots, d ∈ univ := fun d hd => hroots d (by simp [hd])
    cases hc : m.closed s c with
    | true =>
      obtain ⟨new, hnew, hw⟩ := ih hrest s pre hfuel
      have hvisit : m.visit walk (s, pre) c = (s, pre) := by
        simp [visit, hc]
      refine ⟨new, by simpa [hvisit] using hnew, ?_⟩
      rw [List.foldl_cons, hvisit]
      have hskip : m.Walked succ [c] s s [] := Walked.skip (by simp [hc])
      simpa using hskip.append hw
    | false =>
      have hlt := length_openNodes_close_lt (hroots c (by simp)) hc
      have hinner := hwalk c (m.close s c) (by omega)
      have hroot := Walked.root hc hinner
      have hvisit : m.visit walk (s, pre) c =
          ((walk c (m.close s c)).1,
            pre ++ c :: (walk c (m.close s c)).2) := by
        simp [visit, hc]
      obtain ⟨new, hnew, hw⟩ := ih hrest (walk c (m.close s c)).1
        (pre ++ c :: (walk c (m.close s c)).2)
        (Nat.le_trans hroot.length_openNodes_le hfuel)
      refine ⟨c :: (walk c (m.close s c)).2 ++ new, ?_, ?_⟩
      · rw [List.foldl_cons, hvisit, hnew, List.append_assoc]
      · rw [List.foldl_cons, hvisit]
        exact hroot.append hw

variable (m) in
/-- Fuel for the open nodes of a universe that holds all successors is enough:
the walk closes everything it should. -/
theorem propagate_spec (hsucc : ∀ i, ∀ c ∈ succ i, c ∈ univ) (fuel : Nat) (i : Node) (s : State)
    (hfuel : (m.openNodes univ s).length ≤ fuel) :
    m.Walked succ (succ i) s (m.propagate succ fuel i s).1 (m.propagate succ fuel i s).2 := by
  induction fuel generalizing i s with
  | zero =>
    have hnone : m.openNodes univ s = [] :=
      List.length_eq_zero_iff.1 (Nat.le_zero.1 hfuel)
    refine Walked.skip ?_
    intro c hc
    cases hs : m.closed s c with
    | true => rfl
    | false =>
      have : c ∈ m.openNodes univ s := by
        simp [openNodes, hsucc i c hc, hs]
      simp [hnone] at this
  | succ fuel ih =>
    obtain ⟨new, hnew, hw⟩ :=
      foldl_visit_walked (fun c s => ih c s) (succ i) (hsucc i) s [] hfuel
    rw [List.nil_append] at hnew
    rw [← hnew] at hw
    exact hw

end Marker
end PhloTransform.Library
