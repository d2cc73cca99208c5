import PhloTransform.Engine.AttemptHistory
import PhloTransform.Engine.PhysicalOps

/-!
# The retry budget of an invocation

A node is attempted until an attempt is not to be tried again.  The attempts of a model are
numbered on from those that the record of the run already holds, those of a seed from one,
and the policy compares the number with the attempts that a node may get.

Main results:

- Theorem `AttemptLoop.attempts_length`: how many attempts the loop makes.
- Theorem `Execution.keepsBudget_iff`: when an invocation attempts a node once more for each
  configured retry that its leading failures ask for.
-/

namespace PhloTransform.Engine

open Core (Compilation ModelId)

/-! ## Leading failures -/

/-- A failure that another attempt may mend: `should_retry`, the number of the attempt aside. -/
def AttemptAnswer.isRetryable (answer : AttemptAnswer) : Bool :=
  answer.failure.any fun failure => failure.retryable && decide (failure.category = .adapter)

/-- The leading answers that are retryable failures, as far as they are counted. -/
def leadingRetryable (answer : Nat → AttemptAnswer) : Nat → Nat
  | 0 => 0
  | counted + 1 =>
    if (answer 0).isRetryable then
      leadingRetryable (fun k => answer (k + 1)) counted + 1
    else 0

theorem leadingRetryable_of_le {answer : Nat → AttemptAnswer} {counted further : Nat}
    (h : counted ≤ further) :
    leadingRetryable answer counted = min counted (leadingRetryable answer further) := by
  induction counted generalizing answer further with
  | zero => exact (Nat.zero_min _).symm
  | succ counted ih =>
    cases further with
    | zero => omega
    | succ further =>
      simp only [leadingRetryable]
      split
      · rw [ih (Nat.le_of_succ_le_succ h)]
        omega
      · omega

/-! ## The loop -/

/-- The attempts that one invocation makes at a node. -/
structure AttemptLoop where
  retry : RetryPolicy
  before : Nat
  answer : Nat → AttemptAnswer
  /-- Cancellation has been requested when an attempt has failed. -/
  cancelled : Nat → Bool

/-- An attempt as it is recorded. -/
structure Tried where
  attempt : Nat
  failure : Option Failure
deriving DecidableEq, Repr

namespace AttemptLoop

variable (l : AttemptLoop)
variable {failure : Failure}

/-- A failed attempt of this invocation is tried again. -/
def triesAgain (k : Nat) (failure : Failure) : Bool :=
  l.retry.shouldRetry failure (l.before + k + 1) && !l.cancelled k

theorem lt_of_triesAgain {k : Nat} (h : l.triesAgain k failure = true) :
    l.before + k + 1 < l.retry.maxAttempts := by
  simp only [triesAgain, RetryPolicy.shouldRetry, Bool.and_eq_true, decide_eq_true_eq] at h
  exact h.1.1.2

/-- The attempts from one of them on, and how the last of them failed. -/
def runFrom (k : Nat) : List Tried × Option Failure :=
  match (l.answer k).failure with
  | none => ([{ attempt := l.before + k + 1, failure := none }], none)
  | some failure =>
    let tried : Tried := { attempt := l.before + k + 1, failure := some failure }
    if h : l.triesAgain k failure = true then
      let rest := runFrom (k + 1)
      (tried :: rest.1, rest.2)
    else ([tried], some failure)
termination_by l.retry.maxAttempts - (l.before + k)
decreasing_by
  have := l.lt_of_triesAgain h
  omega

def attempts : List Tried := (l.runFrom 0).1

def outcome : Option Failure := (l.runFrom 0).2

/-- One attempt, and one more for each retry that the leading failures ask for; the node
fails with its last failure. -/
def KeepsBudget : Prop :=
  l.attempts.length = 1 + leadingRetryable l.answer l.retry.retries ∧
    l.attempts.map Tried.failure =
      (List.range l.attempts.length).map (fun k => (l.answer k).failure) ∧
    l.attempts.getLast?.map Tried.failure = some l.outcome

theorem triesAgain_iff (hcancelled : ∀ k, l.cancelled k = false) {k : Nat}
    (hfailure : (l.answer k).failure = some failure) :
    l.triesAgain k failure = true ↔
      (l.answer k).isRetryable = true ∧ l.before + k + 1 < l.retry.maxAttempts := by
  simp only [triesAgain, RetryPolicy.shouldRetry, AttemptAnswer.isRetryable, hfailure, hcancelled,
    Option.any_some, Bool.and_eq_true, decide_eq_true_eq, Bool.not_false, and_true]
  tauto

/-- The loop makes one attempt, and one more for each leading retryable failure, as far as
the numbers of the attempts stay below the limit. -/
theorem runFrom_length (hcancelled : ∀ k, l.cancelled k = false) (k : Nat) :
    (l.runFrom k).1.length =
      1 + leadingRetryable (fun i => l.answer (k + i))
        (l.retry.maxAttempts - (l.before + k) - 1) := by
  fun_induction l.runFrom k with
  | case1 k hanswer =>
    have hplain : (l.answer k).isRetryable = false := by
      rw [AttemptAnswer.isRetryable, hanswer]
      rfl
    cases l.retry.maxAttempts - (l.before + k) - 1 with
    | zero => rfl
    | succ n => simp [leadingRetryable, hplain]
  | case2 k failure hanswer tried hagain rest ih =>
    obtain ⟨hretryable, hlt⟩ := (l.triesAgain_iff hcancelled hanswer).1 hagain
    obtain ⟨n, hn⟩ : ∃ n, l.retry.maxAttempts - (l.before + k) - 1 = n + 1 :=
      ⟨l.retry.maxAttempts - (l.before + k) - 2, by omega⟩
    have hrest : l.retry.maxAttempts - (l.before + (k + 1)) - 1 = n := by omega
    rw [hrest] at ih
    rw [hn, leadingRetryable, if_pos (by simpa using hretryable), List.length_cons, ih]
    have hshift : (fun i => l.answer (k + 1 + i)) = fun i => l.answer (k + (i + 1)) := by
      funext i
      congr 1
      omega
    rw [hshift]
    omega
  | case3 k failure hanswer tried hagain =>
    rw [l.triesAgain_iff hcancelled hanswer] at hagain
    cases hn : l.retry.maxAttempts - (l.before + k) - 1 with
    | zero => rfl
    | succ n =>
      have hplain : (l.answer k).isRetryable = false :=
        Bool.eq_false_iff.2 fun h => hagain ⟨h, by omega⟩
      simp [leadingRetryable, hplain]

theorem map_failure_runFrom (k : Nat) :
    (l.runFrom k).1.map Tried.failure =
      (List.range (l.runFrom k).1.length).map fun i => (l.answer (k + i)).failure := by
  fun_induction l.runFrom k with
  | case1 k hanswer => simp [hanswer]
  | case2 k failure hanswer tried hagain rest ih =>
    rw [List.map_cons, ih, List.length_cons, List.range_succ_eq_map, List.map_cons, List.map_map]
    congr 1
    · simp [hanswer, tried]
    · apply List.map_congr_left
      intro i _
      simp only [Function.comp_apply]
      congr 2
      omega
  | case3 k failure hanswer tried hagain => simp [hanswer, tried]

theorem getLast?_runFrom (k : Nat) :
    (l.runFrom k).1.getLast?.map Tried.failure = some (l.runFrom k).2 := by
  fun_induction l.runFrom k with
  | case1 k hanswer => rfl
  | case2 k failure hanswer tried hagain rest ih =>
    cases hrest : rest.1 with
    | nil => simp [rest, hrest] at ih
    | cons first others =>
      rw [hrest] at ih
      exact ih
  | case3 k failure hanswer tried hagain => rfl

theorem attempts_length (hcancelled : ∀ k, l.cancelled k = false) :
    l.attempts.length = 1 + leadingRetryable l.answer (l.retry.maxAttempts - l.before - 1) := by
  have h := l.runFrom_length hcancelled 0
  simpa [attempts] using h

/-- The budget is kept as far as the attempts recorded before and the retries that are asked
for stay below the attempts that a node may get. -/
theorem keepsBudget_iff_fits (hcancelled : ∀ k, l.cancelled k = false) :
    l.KeepsBudget ↔ leadingRetryable l.answer l.retry.retries = 0 ∨
      l.before + leadingRetryable l.answer l.retry.retries < l.retry.maxAttempts := by
  have hrest := l.map_failure_runFrom 0
  simp only [Nat.zero_add] at hrest
  have hmax : l.retry.maxAttempts - l.before - 1 ≤ l.retry.retries := by
    unfold RetryPolicy.maxAttempts
    omega
  have hlength := l.attempts_length hcancelled
  rw [leadingRetryable_of_le hmax] at hlength
  constructor
  · rintro ⟨hbudget, -⟩
    omega
  · intro hfits
    exact ⟨by omega, hrest, l.getLast?_runFrom 0⟩

end AttemptLoop

/-! ## The nodes of an invocation -/

/-- A node that an invocation attempts. -/
inductive AttemptedNode where
  | model (id : ModelId)
  | seed (name : String)

namespace Execution

variable (x : Execution)

/-- The attempts that are counted when a node is taken up: those that earlier calls of the run
recorded for a model.  A seed is counted from the start. -/
def attemptsBefore : AttemptedNode → Nat
  | .model id => (x.priorAttempts id).length
  | .seed _ => 0

/-- The loop at a node of the run, where nothing is cancelled. -/
def attemptLoop (retry : RetryPolicy) (node : AttemptedNode) (answer : Nat → AttemptAnswer) :
    AttemptLoop where
  retry := retry
  before := x.attemptsBefore node
  answer := answer
  cancelled := fun _ => false

/-- An invocation keeps the budget of a node exactly when no retry is asked for, or the
attempts already counted leave room for those that are. -/
theorem keepsBudget_iff (retry : RetryPolicy) (node : AttemptedNode)
    (answer : Nat → AttemptAnswer) :
    (x.attemptLoop retry node answer).KeepsBudget ↔
      leadingRetryable answer retry.retries = 0 ∨
        x.attemptsBefore node + leadingRetryable answer retry.retries < retry.maxAttempts :=
  (x.attemptLoop retry node answer).keepsBudget_iff_fits fun _ => rfl

end Execution

/-! ## A resumed run -/

namespace Sample

def failedOnce : List Execution.Event :=
  started ++ [.attemptFailed Core.Sample.rawModel.id "" rawAttempt.startedAt .adapter]

def oneHiccup : Nat → AttemptAnswer
  | 0 => .error { code := "SERVER_BUSY", retryable := true }
  | _ + 1 => .ok

end Sample

/-- A run with one retry is killed after its first attempt at a table.  When it is resumed, a
transient failure is not retried: the attempt that the record holds has used up the budget. -/
theorem resumed_budget_spent :
    ∃ l x, (@calls januaryClock).run ⟨Store.empty, []⟩
        [Sample.applyRaw Sample.failedOnce 3] = some l ∧
      @Invocation.execution januaryClock (@Ledger.store januaryClock l)
        (Sample.resumeRaw [] 0).invocation = some x ∧
      ¬ (x.attemptLoop { retries := 1 } (.model Core.Sample.rawModel.id)
        Sample.oneHiccup).KeepsBudget := by
  let _ := januaryClock
  have hrun : (calls.run ⟨Store.empty, []⟩ [Sample.applyRaw Sample.failedOnce 3]).bind
      (fun l => ((Sample.resumeRaw [] 0).invocation.execution l.store).map fun x =>
        x.attemptsBefore (.model Core.Sample.rawModel.id)) = some 1 := by
    decide +kernel
  obtain ⟨l, hl, hresumed⟩ := Option.bind_eq_some_iff.1 hrun
  obtain ⟨x, hx, hbefore⟩ := Option.map_eq_some_iff.1 hresumed
  refine ⟨l, x, hl, hx, ?_⟩
  have hasked : leadingRetryable Sample.oneHiccup 1 = 1 := by decide
  rw [AttemptLoop.keepsBudget_iff_fits _ fun _ => rfl]
  simp only [Execution.attemptLoop, hbefore, hasked]
  decide

end PhloTransform.Engine
