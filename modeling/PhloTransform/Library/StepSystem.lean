import Mathlib.Data.List.Basic
import Mathlib.Data.List.TakeWhile
import Mathlib.Order.Defs.PartialOrder
import Mathlib.Tactic.Common

/-!
# Event-driven step systems

A step system is a partial function from a state and an external event to the
next state; an event that is not enabled has no successor.  A run is a list of
events.  The module supplies the induction rules used for every loop of this
development: invariants, relations that accumulate along a run, and a measure
that bounds the length of every run.

Main results:

- Theorem `StepSystem.run_invariant`: a predicate preserved by each step holds
  after every run.
- Theorem `StepSystem.run_rel`: a reflexive and transitive relation that holds
  across each step holds across every run.
-/

namespace PhloTransform.Library

/-- A deterministic reaction of a state to external events. -/
structure StepSystem (State Event : Type*) where
  step : State → Event → Option State

namespace StepSystem

variable {State Event : Type*} (sys : StepSystem State Event)
variable {s t : State} {P : State → Prop} {Q : State → Event → Prop}
variable {pre post : List Event}

/-- Feed a list of events to the system. -/
def run : State → List Event → Option State
  | s, [] => some s
  | s, e :: es => (sys.step s e).bind fun s' => run s' es

@[simp]
theorem run_nil (s : State) : sys.run s [] = some s :=
  rfl

theorem run_cons_eq_some {e : Event} {es : List Event} :
    sys.run s (e :: es) = some t ↔ ∃ s', sys.step s e = some s' ∧ sys.run s' es = some t := by
  simp [run, Option.bind_eq_some_iff]

theorem run_append (s : State) (es fs : List Event) :
    sys.run s (es ++ fs) = (sys.run s es).bind fun s' => sys.run s' fs := by
  induction es generalizing s with
  | nil => rfl
  | cons e es ih =>
    simp only [List.cons_append, run, Option.bind_assoc]
    congr 1
    funext s'
    exact ih s'

theorem run_append_eq_some {es fs : List Event} :
    sys.run s (es ++ fs) = some t ↔ ∃ m, sys.run s es = some m ∧ sys.run m fs = some t := by
  rw [run_append, Option.bind_eq_some_iff]

/-! ## Induction along a run -/

/-- A predicate preserved by each step holds after every run. -/
theorem run_invariant (hstep : ∀ s e s', P s → sys.step s e = some s' → P s') {es : List Event}
    (hs : P s) (hrun : sys.run s es = some t) : P t := by
  induction es generalizing s with
  | nil =>
    simp only [run_nil, Option.some.injEq] at hrun
    exact hrun ▸ hs
  | cons e es ih =>
    obtain ⟨s', he, hes⟩ := (sys.run_cons_eq_some).1 hrun
    exact ih (hstep s e s' hs he) hes

/-- A reflexive and transitive relation that holds across each step holds
across every run. -/
theorem run_rel {R : State → State → Prop} (hrefl : ∀ s, R s s)
    (htrans : ∀ s m t, R s m → R m t → R s t) (hstep : ∀ s e s', sys.step s e = some s' → R s s')
    {es : List Event} (hrun : sys.run s es = some t) : R s t := by
  induction es generalizing s with
  | nil =>
    simp only [run_nil, Option.some.injEq] at hrun
    exact hrun ▸ hrefl s
  | cons e es ih =>
    obtain ⟨s', he, hes⟩ := (sys.run_cons_eq_some).1 hrun
    exact htrans s s' t (hstep s e s' he) (ih hes)

/-- Every step of a run meets a condition on the state before it. -/
def EachStep (Q : State → Event → Prop) : State → List Event → Prop
  | _, [] => True
  | s, e :: es => Q s e ∧ ∀ s', sys.step s e = some s' → EachStep Q s' es

theorem eachStep_append :
    sys.EachStep Q s (pre ++ post) ↔
      sys.EachStep Q s pre ∧ ∀ m, sys.run s pre = some m → sys.EachStep Q m post := by
  induction pre generalizing s with
  | nil => simp [EachStep]
  | cons a pre ih =>
    simp only [List.cons_append, EachStep, run_cons_eq_some, ih]
    constructor
    · rintro ⟨ha, hrest⟩
      refine ⟨⟨ha, fun s' hs' => (hrest s' hs').1⟩, ?_⟩
      rintro m ⟨s', hs', hm⟩
      exact (hrest s' hs').2 m hm
    · rintro ⟨⟨ha, hpre⟩, hpost⟩
      exact ⟨ha, fun s' hs' => ⟨hpre s' hs', fun m hm => hpost m ⟨s', hs', hm⟩⟩⟩

theorem eachStep_of_forall {es : List Event} (h : ∀ s, ∀ e ∈ es, Q s e) (s : State) :
    sys.EachStep Q s es := by
  induction es generalizing s with
  | nil => trivial
  | cons e es ih =>
    exact ⟨h s e (by simp), fun s' _ => ih (fun s a ha => h s a (by simp [ha])) s'⟩

theorem EachStep.of_append {m : State} {e : Event} (h : sys.EachStep Q s (pre ++ e :: post))
    (hrun : sys.run s pre = some m) : Q m e :=
  ((sys.eachStep_append.1 h).2 m hrun).1

variable {sys} in
theorem EachStep.and {R : State → Event → Prop} {es : List Event} (hQ : sys.EachStep Q s es)
    (hR : sys.EachStep R s es) : sys.EachStep (fun s e => Q s e ∧ R s e) s es := by
  induction es generalizing s with
  | nil => trivial
  | cons e es ih => exact ⟨⟨hQ.1, hR.1⟩, fun s' hs' => ih (hQ.2 s' hs') (hR.2 s' hs')⟩

/-- A property of the events so far and the state they lead to, preserved by each
step that meets the condition, holds after every run whose steps all meet it. -/
theorem run_history {P : List Event → State → Prop} {Q : State → Event → Prop}
    (hstep : ∀ es s e s', P es s → Q s e → sys.step s e = some s' → P (es ++ [e]) s')
    {es : List Event} {s t : State} (pre : List Event) (hs : P pre s)
    (heach : sys.EachStep Q s es) (hrun : sys.run s es = some t) : P (pre ++ es) t := by
  induction es generalizing pre s with
  | nil =>
    simp only [run_nil, Option.some.injEq] at hrun
    simpa [← hrun] using hs
  | cons e es ih =>
    obtain ⟨s', he, hes⟩ := (sys.run_cons_eq_some).1 hrun
    have hnext := ih (pre ++ [e]) (hstep pre s e s' hs heach.1 he) (heach.2 s' he) hes
    rwa [List.append_assoc] at hnext

/-- Whether a run meets a condition is decided by running it. -/
instance EachStep.decidable {Q : State → Event → Prop} [∀ s e, Decidable (Q s e)] :
    ∀ (s : State) (es : List Event), Decidable (sys.EachStep Q s es)
  | _, [] => .isTrue trivial
  | s, e :: es =>
    match h : sys.step s e with
    | none => decidable_of_iff (Q s e) (by simp [EachStep, h])
    | some s' =>
      have : Decidable (sys.EachStep Q s' es) := EachStep.decidable s' es
      decidable_of_iff (Q s e ∧ sys.EachStep Q s' es) (by simp [EachStep, h])

/-- A property preserved by each step that meets the condition holds after every
run whose steps all meet it. -/
theorem EachStep.invariant (hstep : ∀ s e s', P s → Q s e → sys.step s e = some s' → P s')
    {es : List Event} (hs : P s) (heach : sys.EachStep Q s es) (hrun : sys.run s es = some t) :
    P t := by
  induction es generalizing s with
  | nil =>
    simp only [run_nil, Option.some.injEq] at hrun
    exact hrun ▸ hs
  | cons e es ih =>
    obtain ⟨s', he, hes⟩ := (sys.run_cons_eq_some).1 hrun
    exact ih (hstep s e s' hs heach.1 he) (heach.2 s' he) hes

/-- When the counted steps from an invariant state lower a measure and no other step
raises it, the measure of the first state pays for the counted events of a run. -/
theorem countP_add_measure_le {μ : State → Nat} {counts : Event → Bool}
    (hstep : ∀ s e s', P s → sys.step s e = some s' → P s')
    (hμ : ∀ s e s', P s → sys.step s e = some s' → (if counts e then 1 else 0) + μ s' ≤ μ s)
    {es : List Event} (hs : P s) (hrun : sys.run s es = some t) :
    es.countP counts + μ t ≤ μ s := by
  induction es generalizing s with
  | nil =>
    simp only [run_nil, Option.some.injEq] at hrun
    simp [hrun]
  | cons e es ih =>
    obtain ⟨s', he, hes⟩ := (sys.run_cons_eq_some).1 hrun
    have hrest := ih (hstep s e s' hs he) hes
    have hdrop := hμ s e s' hs he
    rw [List.countP_cons]
    omega

/-- When every step lowers the measure, it pays for all events of a run. -/
theorem length_add_measure_le {μ : State → Nat}
    (hstep : ∀ s e s', P s → sys.step s e = some s' → P s')
    (hμ : ∀ s e s', P s → sys.step s e = some s' → μ s' < μ s) {es : List Event} (hs : P s)
    (hrun : sys.run s es = some t) : es.length + μ t ≤ μ s := by
  have hcounted : es.countP (fun _ => true) + μ t ≤ μ s :=
    sys.countP_add_measure_le hstep (fun s e s' h he => by
      have hdrop := hμ s e s' h he
      simp only [if_true]
      omega) hs hrun
  simpa using hcounted

end StepSystem

/-! ## Windows of a run -/

section Windows

variable {Event : Type*} {opens closes : Event → Bool} {es : List Event} {e : Event}

/-- The events from the first that opens on, up to the next that closes. -/
def window (opens closes : Event → Bool) (es : List Event) : List Event :=
  (es.dropWhile fun e => !opens e).takeWhile fun e => !closes e

theorem window_append_of_unopened (h : ∀ e ∈ es, opens e = false) (hopens : opens e = true)
    (hcloses : closes e = false) : window opens closes (es ++ [e]) = [e] := by
  have hdrop : (es ++ [e]).dropWhile (fun e => !opens e) = [e] := by
    rw [List.dropWhile_append_of_pos (by simpa using h)]
    simp [hopens]
  simp [window, hdrop, hcloses]

/-- A window that opened has closed again. -/
def WindowClosed (opens closes : Event → Bool) (es : List Event) : Prop :=
  ∃ e ∈ es.dropWhile fun e => !opens e, closes e = true

theorem dropWhile_append_of_opened (hopen : ∃ e ∈ es, opens e = true) (later : List Event) :
    (es ++ later).dropWhile (fun e => !opens e) = es.dropWhile (fun e => !opens e) ++ later := by
  have hne : (es.dropWhile fun e => !opens e).isEmpty = false := by
    obtain ⟨first, hfirst, hopens⟩ := hopen
    rw [List.isEmpty_eq_false_iff, ne_eq, List.dropWhile_eq_nil_iff]
    intro hall
    simpa [hopens] using hall first hfirst
  rw [List.dropWhile_append, hne, if_neg (by simp)]

/-- An open window takes in what happens, up to the event that closes it. -/
theorem window_append_of_open (hopen : ∃ e ∈ es, opens e = true)
    (hunclosed : ∀ e ∈ es, closes e = false) :
    window opens closes (es ++ [e]) = window opens closes es ++ if closes e then [] else [e] := by
  have hkeep : ∀ e ∈ es.dropWhile fun e => !opens e, (!closes e) = true := fun e he => by
    simp [hunclosed e ((List.dropWhile_sublist _).subset he)]
  rw [window, window, dropWhile_append_of_opened hopen,
    List.takeWhile_append_of_pos hkeep, List.takeWhile_eq_self_iff.2 hkeep]
  cases hcloses : closes e <;> simp [hcloses]

theorem windowClosed_append_of_open (hopen : ∃ e ∈ es, opens e = true)
    (hcloses : closes e = true) : WindowClosed opens closes (es ++ [e]) := by
  refine ⟨e, ?_, hcloses⟩
  rw [dropWhile_append_of_opened hopen]
  simp

theorem WindowClosed.append (h : WindowClosed opens closes es) (later : List Event) :
    WindowClosed opens closes (es ++ later) ∧
      window opens closes (es ++ later) = window opens closes es := by
  obtain ⟨e, he, hcloses⟩ := h
  have hopen : ∃ e ∈ es, opens e = true := by
    by_contra hnone
    have hnil : (es.dropWhile fun e => !opens e) = [] := by
      rw [List.dropWhile_eq_nil_iff]
      intro e he
      simpa using fun hopens => hnone ⟨e, he, hopens⟩
    simp [hnil] at he
  refine ⟨⟨e, ?_, hcloses⟩, ?_⟩
  · rw [dropWhile_append_of_opened hopen]
    exact List.mem_append_left later he
  · rw [window, window, dropWhile_append_of_opened hopen, List.takeWhile_append, if_neg]
    intro hlength
    have hall := List.takeWhile_eq_self_iff.1
      ((List.takeWhile_prefix _).eq_of_length hlength)
    simpa [hcloses] using hall e he

end Windows

end PhloTransform.Library
