import Mathlib.Tactic.Common

/-!
# Execution statuses

The status of a run, a model, a seed or a test, and the plan action that leads
to it.
-/

namespace PhloTransform.Engine

inductive ExecutionStatus where
  | pending
  | ready
  | running
  | passed
  | failed
  | skipped
  | cached
  | blocked
  | cancelled
deriving Repr, DecidableEq, Inhabited

namespace ExecutionStatus

def isTerminal : ExecutionStatus → Bool
  | passed | failed | skipped | cached | blocked | cancelled => true
  | pending | ready | running => false

/-- The node's dataset is available to dependents. -/
def isSatisfied : ExecutionStatus → Bool
  | passed | skipped | cached => true
  | _ => false

def label : ExecutionStatus → String
  | pending => "pending"
  | ready => "ready"
  | running => "running"
  | passed => "passed"
  | failed => "failed"
  | skipped => "skipped"
  | cached => "cached"
  | blocked => "blocked"
  | cancelled => "cancelled"

/-- Read a stored status back; unknown text means pending. -/
def parse (value : String) : ExecutionStatus :=
  if value = "passed" then passed
  else if value = "failed" then failed
  else if value = "skipped" then skipped
  else if value = "cached" then cached
  else if value = "blocked" then blocked
  else if value = "cancelled" then cancelled
  else if value = "running" then running
  else if value = "ready" then ready
  else pending

@[simp]
theorem parse_label (status : ExecutionStatus) : parse status.label = status := by
  cases status <;> decide

theorem isTerminal_of_isSatisfied {status : ExecutionStatus}
    (h : status.isSatisfied = true) : status.isTerminal = true := by
  cases status <;> simp_all [isSatisfied, isTerminal]

end ExecutionStatus

/-- Why a node failed or never ran. -/
inductive FailureCategory where
  | adapter
  | sql
  | test
  | timeout
  | cancelled
  | dependency
  | state
  | internal
deriving Repr, DecidableEq

def FailureCategory.code : FailureCategory → String
  | adapter => "adapter"
  | sql => "sql"
  | test => "test"
  | timeout => "timeout"
  | cancelled => "cancelled"
  | dependency => "dependency"
  | state => "state"
  | internal => "internal"

/-- What the planner intends to do to a model's physical relation. -/
inductive PlanAction where
  | build
  | skip
  | cached
  | unknown
deriving Repr, DecidableEq, Inhabited

def PlanAction.asStr : PlanAction → String
  | build => "build"
  | skip => "skip"
  | cached => "cached"
  | unknown => "unknown"

end PhloTransform.Engine
