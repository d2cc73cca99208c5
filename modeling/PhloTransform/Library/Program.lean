import Mathlib.Order.Defs.Unbundled
import Mathlib.Tactic.Common

/-!
# Programs that call fallible services

A program runs over a state and ends in a value or a failure; a failure keeps the
state reached.  A program on a part of a state runs on the whole of it, and a call
to a service that other parties use finds the state as they left it.

Main results:

- Theorem `bind_eq_ok`, `bind_eq_error`: how a sequence of two programs ends.
- Theorem `Advances.bind`: a preorder that each step respects is respected by the
  sequence.
-/

namespace PhloTransform.Library

/-- A program over states `σ` that fails with an `ε` or returns an `α`. -/
def Program (σ ε α : Type) : Type :=
  σ → Except ε α × σ

namespace Program

variable {σ τ ε ε' α β : Type}
variable {f : α → Program σ ε β} {s s' s'' : σ}

protected def pure (a : α) : Program σ ε α :=
  fun s => (.ok a, s)

protected def bind (p : Program σ ε α) (f : α → Program σ ε β) : Program σ ε β :=
  fun s =>
    match p s with
    | (.ok a, s') => f a s'
    | (.error e, s') => (.error e, s')

instance : Monad (Program σ ε) where
  pure := Program.pure
  bind := Program.bind

def fail (e : ε) : Program σ ε α :=
  fun s => (.error e, s)

def get : Program σ ε σ :=
  fun s => (.ok s, s)

def modify (f : σ → σ) : Program σ ε Unit :=
  fun s => (.ok (), f s)

def mapError (f : ε → ε') (p : Program σ ε α) : Program σ ε' α :=
  fun s =>
    match p s with
    | (.ok a, s') => (.ok a, s')
    | (.error e, s') => (.error (f e), s')

/-- Run to the end either way and return how it ended. -/
def attempt (p : Program σ ε α) : Program σ ε' (Except ε α) :=
  fun s => (.ok (p s).1, (p s).2)

def ofExcept (r : Except ε α) : Program σ ε α :=
  fun s => (r, s)

def zoom (part : τ → σ) (set : σ → τ → τ) (p : Program σ ε α) : Program τ ε α :=
  fun t => ((p (part t)).1, set (p (part t)).2 t)

/-- One call to a shared service: `others n` is what other parties do before the
`n`-th call. -/
def atomic (others : Nat → σ → σ) (p : Program σ ε α) : Program (σ × Nat) ε α :=
  fun s => ((p (others s.2 s.1)).1, (p (others s.2 s.1)).2, s.2 + 1)

/-! ## How programs end -/

@[simp]
theorem pure_run (a : α) (s : σ) : (pure a : Program σ ε α) s = (.ok a, s) :=
  rfl

@[simp]
theorem fail_run (e : ε) (s : σ) : (fail e : Program σ ε α) s = (.error e, s) :=
  rfl

@[simp]
theorem get_run (s : σ) : (get : Program σ ε σ) s = (.ok s, s) :=
  rfl

@[simp]
theorem modify_run (f : σ → σ) (s : σ) : (modify f : Program σ ε Unit) s = (.ok (), f s) :=
  rfl

@[simp]
theorem attempt_run (p : Program σ ε α) (s : σ) :
    (attempt p : Program σ ε' (Except ε α)) s = (.ok (p s).1, (p s).2) :=
  rfl

@[simp]
theorem ofExcept_run (r : Except ε α) (s : σ) : (ofExcept r : Program σ ε α) s = (r, s) :=
  rfl

@[simp]
theorem atomic_run (others : Nat → σ → σ) (p : Program σ ε α) (s : σ) (n : Nat) :
    atomic others p (s, n) = ((p (others n s)).1, (p (others n s)).2, n + 1) :=
  rfl

theorem bind_run (p : Program σ ε α) (f : α → Program σ ε β) (s : σ) :
    (p >>= f) s =
      match p s with
      | (.ok a, s') => f a s'
      | (.error e, s') => (.error e, s') :=
  rfl

theorem bind_of_ok {p : Program σ ε α} {a : α} (h : p s = (.ok a, s')) : (p >>= f) s = f a s' := by
  rw [bind_run, h]

theorem bind_of_error {p : Program σ ε α} {e : ε} (h : p s = (.error e, s')) :
    (p >>= f) s = (.error e, s') := by
  rw [bind_run, h]

theorem bind_eq_ok {p : Program σ ε α} {b : β} :
    (p >>= f) s = (.ok b, s'') ↔ ∃ a s', p s = (.ok a, s') ∧ f a s' = (.ok b, s'') := by
  rw [bind_run]
  rcases p s with ⟨a | e, s'⟩
  · simp
  · simp

/-- A sequence fails when the first program fails, or the second after it. -/
theorem bind_eq_error {p : Program σ ε α} {e : ε} :
    (p >>= f) s = (.error e, s'') ↔
      p s = (.error e, s'') ∨ ∃ a s', p s = (.ok a, s') ∧ f a s' = (.error e, s'') := by
  rw [bind_run]
  rcases p s with ⟨a | e, s'⟩
  · simp
  · simp

theorem run_bind_cases {p : Program σ ε α} {r : Except ε β} (h : (p >>= f) s = (r, s'')) :
    (∃ e, p s = (.error e, s'')) ∨ ∃ a s', p s = (.ok a, s') ∧ f a s' = (r, s'') := by
  rw [bind_run] at h
  rcases hp : p s with ⟨e | a, s'⟩
  · rw [hp] at h
    cases h
    exact Or.inl ⟨e, rfl⟩
  · rw [hp] at h
    exact Or.inr ⟨a, s', rfl, h⟩

theorem mapError_eq_ok {f : ε → ε'} {p : Program σ ε α} {a : α} :
    mapError f p s = (.ok a, s') ↔ p s = (.ok a, s') := by
  unfold mapError
  rcases p s with ⟨e | b, s''⟩ <;> simp

theorem mapError_eq_error {f : ε → ε'} {p : Program σ ε α} {e' : ε'} :
    mapError f p s = (.error e', s') ↔ ∃ e, p s = (.error e, s') ∧ f e = e' := by
  unfold mapError
  rcases p s with ⟨e | b, s''⟩
  · constructor
    · intro h
      cases h
      exact ⟨e, rfl, rfl⟩
    · rintro ⟨d, h, rfl⟩
      cases h
      rfl
  · simp

@[simp]
theorem mapError_state (f : ε → ε') (p : Program σ ε α) (s : σ) : (mapError f p s).2 = (p s).2 := by
  unfold mapError
  rcases p s with ⟨e | b, s'⟩ <;> rfl

/-! ## What every run of a program respects -/

/-- Every run goes from a state to a related one. -/
def Advances (R : σ → σ → Prop) (p : Program σ ε α) : Prop :=
  ∀ s, R s (p s).2

namespace Advances

variable {R : σ → σ → Prop} {p : Program σ ε α}

theorem of_run (hp : Advances R p) {s s' : σ} {r : Except ε α} (h : p s = (r, s')) : R s s' := by
  have hrun := hp s
  rwa [h] at hrun

theorem pure [Std.Refl R] (a : α) : Advances R (Pure.pure a : Program σ ε α) :=
  fun s => Std.Refl.refl s

theorem fail [Std.Refl R] (e : ε) : Advances R (fail e : Program σ ε α) :=
  fun s => Std.Refl.refl s

theorem get [Std.Refl R] : Advances R (get : Program σ ε σ) :=
  fun s => Std.Refl.refl s

theorem ofExcept [Std.Refl R] (r : Except ε α) : Advances R (ofExcept r : Program σ ε α) :=
  fun s => Std.Refl.refl s

theorem bind_at [IsTrans σ R] {f : α → Program σ ε β} {s : σ} (hp : R s (p s).2)
    (hf : ∀ a s', p s = (.ok a, s') → R s' (f a s').2) : R s ((p >>= f) s).2 := by
  rw [bind_run]
  rcases h : p s with ⟨e | a, s'⟩
  · rwa [h] at hp
  · rw [h] at hp
    exact IsTrans.trans _ _ _ hp (hf a s' h)

theorem bind [IsTrans σ R] {f : α → Program σ ε β} (hp : Advances R p)
    (hf : ∀ a, Advances R (f a)) : Advances R (p >>= f) :=
  fun s => bind_at (hp s) fun a s' _ => hf a s'

theorem mapError {f : ε → ε'} (hp : Advances R p) : Advances R (mapError f p) := by
  intro s
  rw [mapError_state]
  exact hp s

theorem attempt (hp : Advances R p) : Advances R (attempt p : Program σ ε' (Except ε α)) :=
  hp

end Advances

end Program
end PhloTransform.Library
