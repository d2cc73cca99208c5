import PhloTransform.Daemon.Operations
import PhloTransform.Engine.Scheduler

/-!
# The executors of operations

An executor works through the calls of its operation; what the services answer arrives as
events.  In between it looks at the cancel flag: a run before its execution and at the points
where the runner checks the flag, a promotion before the merge, a test operation before each
test.  A reload never looks.

The runner's loop is the scheduler of the engine, which is handed the flag in the steps that
read it.

Main results:

- Definition `executor`: the executor of a submission.
-/

namespace PhloTransform.Daemon

open Core (ModelId)
open Engine (ExecutionStatus LoopOptions Prelude Sched SchedEvent Schedule)

/-- A program that works through the events of its environment.  In the steps that look at the
cancel flag it learns whether the flag is set. -/
structure Executor (Value : Type) where
  State : Type
  Event : Type
  start : State
  looks : State → Event → Bool
  step (set : Bool) : State → Event → Option State
  outcome : State → Option (Except OperationError Value)

/-- What an operation reports when it succeeds. -/
inductive Report where
  | run (status : ExecutionStatus)
  | tests (failed : Bool)
  | gates (passed checkOnly : Bool)
  | promotion (merged cleaned : Bool)
  | snapshot
deriving DecidableEq

/-- A call to a service, and the codes of its failures. -/
structure ServiceCall where
  what : String
  codes : List String
deriving DecidableEq

abbrev ServiceAnswer := Except OperationError Unit

/-- The next of some calls: the calls that are left, or the failure of the operation. -/
def ServiceCall.next (call : ServiceCall) (left : List ServiceCall) :
    ServiceAnswer → Option (Except OperationError (List ServiceCall))
  | .ok () => some (.ok left)
  | .error error => if error.code ∈ call.codes then some (.error error) else none

/-! ## The runner -/

structure SeedTask where
  name : String
  build : Bool

structure TestTask where
  targets : List ModelId
  seeds : List String

/-- What the runner knows about the plan. -/
structure RunJob where
  schedule : Schedule
  options : LoopOptions
  runTests : Bool
  seeds : List SeedTask
  tests : List TestTask
  readsSeed : ModelId → String → Bool

/-- Where the runner stands. -/
inductive Runner where
  | opening
  | seeding (left : List SeedTask) (failed : List String) (cancelled failFast : Bool)
  | seeded (seed : SeedTask) (ok : Bool) (left : List SeedTask) (failed : List String)
  | looping (s : Sched) (results : ModelId → Option Bool) (failed : List String)
  | testing (left : List TestTask) (s : Sched) (failedSeeds : List String) (failed : Bool)
  | querying (left : List TestTask) (s : Sched) (failedSeeds : List String) (failed : Bool)
  | recording (status : ExecutionStatus)
  | ended (result : Except String ExecutionStatus)

/-- What reaches the runner. -/
inductive RunnerEvent where
  | goOn
  | fails (message : String)
  | loaded (ok retryable : Bool)
  /-- The models carried over from an earlier invocation, and those skipped or adopted. -/
  | opened (reused settled : ModelId → Option ExecutionStatus)
  | attempted (id : ModelId) (ok retryable : Bool)
  | sched (e : SchedEvent)
  | answered (ok : Bool)

namespace Runner

/-- The scheduler has nothing left to do, or is shutting down: it does not look at the flag. -/
def headDecided (s : Sched) : Bool :=
  (s.inflight.isEmpty && s.ready.isEmpty) || s.cancelled || s.failFast

def looks : Runner → RunnerEvent → Bool
  | .seeding (seed :: _) _ cancelled failFast, .loaded ok retryable =>
    seed.build && !cancelled && !failFast && !ok && retryable
  | .seeded .., .goOn => true
  | .looping s _ _, .sched .tick => s.phase = .head && !headDecided s
  | .looping _ _ _, .sched .noticeCancel => true
  | .looping _ _ _, .attempted _ ok retryable => !ok && retryable
  | .testing (_ :: _) s _ _, .goOn => !s.cancelled && !s.failFast
  | _, _ => false

/-- A scheduler step that reads the flag as `set`. -/
def schedStep (job : RunJob) (set : Bool) (s : Sched) (e : SchedEvent) : Option Sched :=
  (Sched.step job.schedule job.options { s with cancelRequested := set } e).map fun s =>
    { s with cancelRequested := false }

def verdict (job : RunJob) (s : Sched) (failedSeeds : List String) (failed : Bool) :
    ExecutionStatus :=
  if s.cancelled then .cancelled
  else if failed || !failedSeeds.isEmpty ||
      job.schedule.planned.any fun id => s.status id = .failed then .failed
  else .passed

/-- A test reads a model that is not there or a seed that failed. -/
def blocked (s : Sched) (failedSeeds : List String) (test : TestTask) : Bool :=
  (test.targets.any fun target => !(s.status target).isSatisfied) ||
    test.seeds.any (· ∈ failedSeeds)

/-- One step of `Runner::execute`. -/
def step (job : RunJob) (set : Bool) : Runner → RunnerEvent → Option Runner
  | .ended _, _ => none
  | _, .fails message => some (.ended (.error message))
  | .opening, .goOn => some (.seeding job.seeds [] false false)
  | .seeding [] failed cancelled failFast, .opened reused settled =>
    let prelude : Prelude :=
      { reused, settled, cancelRequested := false, cancelled, failFast
        readsFailedSeed := fun id => failed.any (job.readsSeed id) }
    some (.looping (prelude.enter job.schedule) (fun _ => none) failed)
  | .seeding (seed :: left) failed cancelled failFast, e =>
    if cancelled || failFast || !seed.build then
      match e with
      | .goOn => some (.seeding left failed cancelled failFast)
      | _ => none
    else
      match e with
      | .loaded ok retryable =>
        if !ok && retryable && !set then some (.seeding (seed :: left) failed cancelled failFast)
        else some (.seeded seed ok left failed)
      | _ => none
  | .seeded seed ok left failed, .goOn =>
    some (.seeding left (if ok then failed else failed ++ [seed.name]) set
      (!ok && job.options.failFast))
  | .looping _ _ _, .sched .requestCancel => none
  | .looping s results failed, .sched (.join id ok) =>
    if results id = some ok then
      (schedStep job set s (.join id ok)).map fun s => .looping s results failed
    else none
  | .looping s results failed, .sched (.abort id) =>
    if results id = none then
      (schedStep job set s (.abort id)).map fun s => .looping s results failed
    else none
  | .looping s results failed, .sched e =>
    (schedStep job set s e).map fun s => .looping s results failed
  | .looping s results failed, .attempted id ok retryable =>
    if id ∈ s.inflight ∧ results id = none then
      if !ok && retryable && !set then some (.looping s results failed)
      else some (.looping s (Function.update results id (some ok)) failed)
    else none
  | .looping s _ failed, .goOn =>
    if s.phase = .done then
      some (.testing (if job.runTests then job.tests else []) s failed false)
    else none
  | .testing [] s failedSeeds failed, .goOn =>
    some (.recording (verdict job s failedSeeds failed))
  | .testing (test :: left) s failedSeeds failed, .goOn =>
    if s.cancelled || s.failFast || set || blocked s failedSeeds test then
      some (.testing left s failedSeeds failed)
    else some (.querying left s failedSeeds failed)
  | .querying left s failedSeeds failed, .answered ok =>
    some (.testing left s failedSeeds (failed || !ok))
  | .recording status, .goOn => some (.ended (.ok status))
  | _, _ => none

end Runner

/-! ## Runs and their continuations -/

/-- What a run calls before and after the runner. -/
structure RunPlan where
  before : List ServiceCall
  checks : Bool
  after : ExecutionStatus → List ServiceCall

/-- Where a run stands. -/
inductive RunStage where
  | preparing (left : List ServiceCall)
  | checking
  | running (runner : Runner)
  | reporting (status : ExecutionStatus) (left : List ServiceCall)
  | ended (outcome : Except OperationError Report)

/-- What reaches a run. -/
inductive RunEvent where
  | goOn
  | answered (answer : ServiceAnswer)
  | runner (e : RunnerEvent)

namespace RunStage

def looks : RunStage → RunEvent → Bool
  | .checking, .goOn => true
  | .running runner, .runner e => runner.looks e
  | _, _ => false

/-- The runner has gone on, or has ended. -/
def ofRunner (plan : RunPlan) : Runner → RunStage
  | .ended (.ok status) => .reporting status (plan.after status)
  | .ended (.error message) => .ended (.error { code := "API011", message })
  | runner => .running runner

def step (plan : RunPlan) (job : RunJob) (set : Bool) : RunStage → RunEvent → Option RunStage
  | .preparing (call :: left), .answered answer =>
    (call.next left answer).map fun
      | .ok left => .preparing left
      | .error error => .ended (.error error)
  | .preparing [], .goOn => some (if plan.checks then .checking else .running .opening)
  | .checking, .goOn =>
    some (if set then
        .ended (.error { code := "cancelled", message := "cancelled before execution" })
      else .running .opening)
  | .running runner, .runner e => (runner.step job set e).map (ofRunner plan)
  | .reporting status (call :: left), .answered answer =>
    (call.next left answer).map fun
      | .ok left => .reporting status left
      | .error error => .ended (.error error)
  | .reporting status [], .goOn => some (.ended (.ok (.run status)))
  | _, _ => none

def outcome : RunStage → Option (Except OperationError Report)
  | .ended outcome => some outcome
  | _ => none

end RunStage

/-- `bind_reference` and the artifacts after a run. -/
def afterRun (status : ExecutionStatus) : List ServiceCall :=
  (if status = .passed then [⟨"bind_reference", ["API011"]⟩] else []) ++
    [⟨"write_run", ["API011"]⟩]

/-- The calls of `target_for`. -/
def targetFor : ServiceCall := ⟨"target_for", ["API007", "API013", "API011"]⟩

/-- `op_run`. -/
def opRun : RunPlan where
  before := [⟨"adapter", ["API007"]⟩, ⟨"base_ref_for", ["API011"]⟩, targetFor,
    ⟨"SelectorSet::parse", ["API006"]⟩, ⟨"resolve_selection", ["API006"]⟩,
    ⟨"plan", ["API011"]⟩, ⟨"write_project, write_plan", ["API011"]⟩]
  checks := true
  after := afterRun

/-- `op_continue`, for `resume` and `retry_failed`. -/
def opContinue : RunPlan where
  before := [⟨"adapter", ["API007"]⟩, ⟨"state", ["API007"]⟩,
    ⟨"find_unique_run", ["API014", "API013"]⟩, ⟨"base_ref_for", ["API011"]⟩, targetFor]
  checks := false
  after := afterRun

def RunPlan.executor (plan : RunPlan) (job : RunJob) : Executor Report where
  State := RunStage
  Event := RunEvent
  start := .preparing plan.before
  looks := RunStage.looks
  step := RunStage.step plan job
  outcome := RunStage.outcome

/-! ## Tests -/

/-- Where a test operation stands; a test is run if its targets are selected. -/
inductive TestStage where
  | preparing (left : List ServiceCall)
  | testing (left : List Bool) (failed : Bool)
  | querying (left : List Bool) (failed : Bool)
  | ended (outcome : Except OperationError Report)

inductive TestEvent where
  | goOn
  | answered (answer : ServiceAnswer)
  | tested (ok : Bool)

namespace TestStage

def looks : TestStage → TestEvent → Bool
  | .testing (_ :: _) _, .goOn => true
  | _, _ => false

/-- `op_test` and `execute_tests`; `tests` are the tests with whether they are covered. -/
def step (tests : List Bool) (set : Bool) : TestStage → TestEvent → Option TestStage
  | .preparing (call :: left), .answered answer =>
    (call.next left answer).map fun
      | .ok left => .preparing left
      | .error error => .ended (.error error)
  | .preparing [], .goOn => some (.testing tests false)
  | .testing (covered :: left) failed, .goOn =>
    some (if set then .ended (.ok (.tests failed))
      else if covered then .querying left failed
      else .testing left failed)
  | .testing [] failed, .goOn => some (.ended (.ok (.tests failed)))
  | .querying left failed, .tested ok => some (.testing left (failed || !ok))
  | _, _ => none

def outcome : TestStage → Option (Except OperationError Report)
  | .ended outcome => some outcome
  | _ => none

end TestStage

def opTest (tests : List Bool) : Executor Report where
  State := TestStage
  Event := TestEvent
  start := .preparing [⟨"adapter", ["API007"]⟩, ⟨"base_ref_for", ["API011"]⟩,
    ⟨"environment_context", ["API007", "API013", "API011"]⟩, ⟨"SelectorSet::parse", ["API006"]⟩,
    ⟨"resolve_selection", ["API006"]⟩]
  looks := TestStage.looks
  step := TestStage.step tests
  outcome := TestStage.outcome

/-! ## Promotions -/

inductive PromoteStage where
  | evaluating (left : List ServiceCall)
  | checking
  | merging (left : List ServiceCall)
  | ended (outcome : Except OperationError Report)

inductive PromoteEvent where
  | goOn
  | answered (answer : ServiceAnswer)
  | evaluated (passed : Bool)
  /-- The promotion is on record; a cleanup that was asked for has gone well or not. -/
  | promoted (merged cleaned : Bool)

namespace PromoteStage

def looks : PromoteStage → PromoteEvent → Bool
  | .checking, .goOn => true
  | _, _ => false

/-- `op_promote`. -/
def step (check cleanup : Bool) (set : Bool) :
    PromoteStage → PromoteEvent → Option PromoteStage
  | .evaluating (call :: left), .answered answer =>
    (call.next left answer).map fun
      | .ok left => .evaluating left
      | .error error => .ended (.error error)
  | .evaluating [], .evaluated passed =>
    some (if !passed || check then .ended (.ok (.gates passed check)) else .checking)
  | .checking, .goOn =>
    some (if set then
        .ended (.error { code := "cancelled", message := "cancelled before merge" })
      else .merging [⟨"promote", ["API013", "API011"]⟩, ⟨"persist_promotion", ["API011"]⟩])
  | .merging (call :: left), .answered answer =>
    (call.next left answer).map fun
      | .ok left => .merging left
      | .error error => .ended (.error error)
  | .merging [], .promoted merged cleaned =>
    if cleaned || (cleanup && merged) then some (.ended (.ok (.promotion merged cleaned)))
    else none
  | _, _ => none

def outcome : PromoteStage → Option (Except OperationError Report)
  | .ended outcome => some outcome
  | _ => none

end PromoteStage

def opPromote (check cleanup : Bool) : Executor Report where
  State := PromoteStage
  Event := PromoteEvent
  start := .evaluating [⟨"nessie", ["API007"]⟩, ⟨"evaluate_promotion", ["API013", "API011"]⟩]
  looks := PromoteStage.looks
  step := PromoteStage.step check cleanup
  outcome := PromoteStage.outcome

/-! ## Reloads -/

/-- `op_reload`: the compilation runs on a thread of its own, and the flag is not looked at. -/
def opReload : Executor Report where
  State := Option (Except OperationError Report)
  Event := ServiceAnswer
  start := none
  looks := fun _ _ => false
  step := fun _ state answer =>
    match state with
    | some _ => none
    | none =>
      (ServiceCall.next ⟨"reload", ["API011"]⟩ [] answer).map fun
        | .ok _ => some (.ok .snapshot)
        | .error error => some (.error error)
  outcome := id

/-- A submission, with what its executor finds to do. -/
inductive Submission where
  | run (job : RunJob)
  | resume (job : RunJob)
  | retryFailed (job : RunJob)
  | test (tests : List Bool)
  | promote (check cleanup : Bool)
  | reload

/-- `execute`: the executor of a submission. -/
def executor : Submission → Executor Report
  | .run job => opRun.executor job
  | .resume job => opContinue.executor job
  | .retryFailed job => opContinue.executor job
  | .test tests => opTest tests
  | .promote check cleanup => opPromote check cleanup
  | .reload => opReload

/-! ## Where an executor looks -/

end PhloTransform.Daemon
