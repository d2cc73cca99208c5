import PhloTransform.Library.Program

/-!
# Runs of statements without a transaction

A client issues statements one after the other.  Each of them is carried out whole or not at
all: a statement fails when its call fails or when the server refuses it, and the client stops
there.  Nothing undoes the statements before.

Main results:

- Theorem `issueAll_eq_error`: a failed run leaves what its first statements did.
- Theorem `issueAll_fails_at`: every statement of a run can be the one that fails.
-/

namespace PhloTransform.Library

variable {σ S ε : Type} {exec : S → σ → Option σ} {refusal : S → ε} {fails : Nat → Option ε}
variable {statement : S} {s s' : σ} {n n' : Nat} {statements : List S}
variable {e : ε}

/-- Issue one statement; the state counts the statements issued, and `fails n` is the failure
of the `n`-th one. -/
def issue (exec : S → σ → Option σ) (refusal : S → ε) (fails : Nat → Option ε) (statement : S) :
    Program (σ × Nat) ε Unit :=
  fun s =>
    match fails s.2 with
    | some e => (.error e, (s.1, s.2 + 1))
    | none =>
      match exec statement s.1 with
      | some after => (.ok (), (after, s.2 + 1))
      | none => (.error (refusal statement), (s.1, s.2 + 1))

def issueAll (exec : S → σ → Option σ) (refusal : S → ε) (fails : Nat → Option ε) :
    List S → Program (σ × Nat) ε Unit
  | [] => pure ()
  | statement :: rest => do
      issue exec refusal fails statement
      issueAll exec refusal fails rest

/-- The state after statements that all succeed. -/
def effects (exec : S → σ → Option σ) : List S → σ → Option σ
  | [], s => some s
  | statement :: rest, s => (exec statement s).bind (effects exec rest)

theorem issue_eq_error (h : issue exec refusal fails statement (s, n) = (.error e, (s', n'))) :
    s' = s := by
  unfold issue at h
  split at h
  · cases h
    rfl
  · split at h
    · cases h
    · cases h
      rfl

theorem issue_eq_ok (h : issue exec refusal fails statement (s, n) = (.ok (), (s', n'))) :
    exec statement s = some s' := by
  unfold issue at h
  split at h
  · cases h
  · split at h
    case h_1 heq =>
        cases h
        exact heq
    case h_2 => cases h

theorem issue_of_fails (h : fails n = some e) (statement : S) (s : σ) :
    issue exec refusal fails statement (s, n) = (.error e, (s, n + 1)) := by
  unfold issue
  rw [h]

theorem issue_of_exec (h : fails n = none) (hexec : exec statement s = some s') :
    issue exec refusal fails statement (s, n) = (.ok (), (s', n + 1)) := by
  unfold issue
  rw [h, hexec]

/-- A failed run leaves what the statements before the failed one did. -/
theorem issueAll_eq_error (h : issueAll exec refusal fails statements (s, n) = (.error e, (s', n')))
    : ∃ k < statements.length, effects exec (statements.take k) s = some s' := by
  induction statements generalizing s n with
  | nil => cases h
  | cons statement rest ih =>
    rcases Program.bind_eq_error.1 h with hfirst | ⟨_, ⟨after, m⟩, hfirst, hrest⟩
    · refine ⟨0, Nat.succ_pos _, ?_⟩
      rw [issue_eq_error hfirst]
      rfl
    · obtain ⟨k, hk, heffects⟩ := ih hrest
      refine ⟨k + 1, Nat.succ_lt_succ hk, ?_⟩
      rw [List.take_succ_cons, effects, issue_eq_ok hfirst]
      exact heffects

/-- The run whose only failure is the call of one statement. -/
theorem issueAll_fails_at {k : Nat} (e : ε) (hk : k < statements.length)
    (h : effects exec (statements.take k) s = some s') :
    issueAll exec refusal (fun m => if m = n + k then some e else none) statements (s, n) =
      (.error e, (s', n + k + 1)) := by
  induction statements generalizing s n k with
  | nil => cases hk
  | cons statement rest ih =>
    cases k with
    | zero =>
      cases h
      exact Program.bind_of_error (issue_of_fails (if_pos rfl) _ _)
    | succ k =>
      rw [List.take_succ_cons, effects] at h
      obtain ⟨after, hexec, hrest⟩ := Option.bind_eq_some_iff.1 h
      refine (Program.bind_of_ok (issue_of_exec (if_neg (by omega)) hexec)).trans ?_
      have hindex : n + (k + 1) = n + 1 + k := by omega
      rw [hindex]
      exact ih (Nat.lt_of_succ_lt_succ hk) hrest

theorem issueAll_singleton (statement : S) :
    issueAll exec refusal fails [statement] = issue exec refusal fails statement := by
  funext s
  rw [issueAll, Program.bind_run]
  rcases issue exec refusal fails statement s with ⟨_ | _, _⟩ <;> rfl

/-- The states that a failed run can leave are those between its statements. -/
theorem exists_issueAll_eq_error_iff [Nonempty ε] :
    (∃ fails e n, issueAll exec refusal fails statements (s, 0) = (.error e, (s', n))) ↔
      ∃ k < statements.length, effects exec (statements.take k) s = some s' := by
  constructor
  · rintro ⟨fails, e, n, h⟩
    exact issueAll_eq_error h
  · rintro ⟨k, hk, h⟩
    obtain ⟨e⟩ := ‹Nonempty ε›
    exact ⟨_, e, _, issueAll_fails_at e hk h⟩

end PhloTransform.Library
