import Mathlib.Data.List.Sort
import PhloTransform.Core.Identity
import PhloTransform.Engine.Status
import PhloTransform.Library.Propagation
import PhloTransform.Library.StepSystem

/-!
# The scheduling loop

The control state of a run: statuses, indegree counters restricted to the
planned set, the ready queue, the tasks in flight, and where the loop stands.
Which task finishes next, whether it succeeded, when cancellation is requested
and which aborted tasks had already finished is decided by the environment and
arrives as events.
-/

namespace PhloTransform.Engine

open Core (ModelId)
open Library (Marker StepSystem)

/-- What the loop knows about the plan: the planned models and every model's
direct model dependencies. -/
structure Schedule where
  planned : List ModelId
  planned_nodup : planned.Nodup
  modelDependencies : ModelId → List ModelId
  dependencies_nodup : ∀ id, (modelDependencies id).Nodup

namespace Schedule

variable (sch : Schedule)

/-- The direct dependencies inside the planned set. -/
def plannedDependencies (id : ModelId) : List ModelId :=
  (sch.modelDependencies id).filter fun dependency => decide (dependency ∈ sch.planned)

/-- The planned models that directly depend on a planned model, sorted. -/
def dependents (id : ModelId) : List ModelId :=
  if id ∈ sch.planned then
    (sch.planned.filter fun child =>
      decide (id ∈ sch.modelDependencies child)).insertionSort (· ≤ ·)
  else []

/-- `release_dependents`: one dependency of each dependent is satisfied now. -/
def releaseDependents (id : ModelId) (remaining : ModelId → Nat) : ModelId → Nat :=
  (sch.dependents id).foldl
    (fun remaining child => Function.update remaining child (remaining child - 1))
    remaining

end Schedule

/-- Statuses as a marker: terminal models are closed, closing means blocking. -/
def statusMarker : Marker ModelId (ModelId → ExecutionStatus) where
  closed status id := (status id).isTerminal
  close status id := Function.update status id .blocked
  closed_close status id j := by
    by_cases h : j = id
    · subst h
      simp [ExecutionStatus.isTerminal]
    · simp [h]

/-- `block_dependents`: block what depends on `id`, depth first; the list holds
the newly blocked models in order.  The recursion only enters models that were
not terminal, so the planned models bound its depth. -/
def Schedule.blockDependents (sch : Schedule) (id : ModelId)
    (status : ModelId → ExecutionStatus) :
    (ModelId → ExecutionStatus) × List ModelId :=
  statusMarker.propagate sch.dependents sch.planned.length id status

/-- Where the loop stands. -/
inductive Phase where
  | head
  | fill
  | wait
  | drain
  | done
deriving Repr, DecidableEq

/-- The control state of a run. -/
structure Sched where
  status : ModelId → ExecutionStatus
  remaining : ModelId → Nat
  ready : List ModelId
  /-- The tasks in the join set; their number is the `inflight` counter. -/
  inflight : List ModelId
  phase : Phase
  cancelRequested : Bool
  cancelled : Bool
  failFast : Bool
  started : List ModelId
  finished : List (ModelId × ExecutionStatus)

/-- The run options the loop reads. -/
structure LoopOptions where
  concurrency : Nat
  failFast : Bool

/-- What the environment decides. -/
inductive SchedEvent where
  | tick
  | requestCancel
  | noticeCancel
  | join (id : ModelId) (ok : Bool)
  | abort (id : ModelId)

namespace Sched

variable (sch : Schedule) (options : LoopOptions)

/-- Set a status and report the model finished. -/
def finish (s : Sched) (id : ModelId) (status : ExecutionStatus) : Sched :=
  { s with
    status := Function.update s.status id status
    finished := s.finished ++ [(id, status)] }

/-- Block everything below a model, reporting each blocked model finished. -/
def blockBelow (s : Sched) (id : ModelId) : Sched :=
  let blocked := sch.blockDependents id s.status
  { s with
    status := blocked.1
    finished := s.finished ++ blocked.2.map fun child => (child, .blocked) }

/-- Satisfy a model: finish it and release its dependents. -/
def satisfy (s : Sched) (id : ModelId) (status : ExecutionStatus) : Sched :=
  { s.finish id status with remaining := sch.releaseDependents id s.remaining }

/-- Dependents of `id` that have become ready. -/
def newReady (s : Sched) (id : ModelId) : List ModelId :=
  (sch.dependents id).filter fun child =>
    decide (s.remaining child = 0) && decide (s.status child = .pending)

/-! ## Before the loop -/

/-- Every planned model pending, indegrees counted inside the planned set; the
seed loads may have been stopped already. -/
def initial (cancelRequested cancelled failFast : Bool) : Sched where
  status := fun _ => .pending
  remaining := fun id =>
    if id ∈ sch.planned then (sch.plannedDependencies id).length else 0
  ready := []
  inflight := []
  phase := .head
  cancelRequested := cancelRequested
  cancelled := cancelled
  failFast := failFast
  started := []
  finished := []

/-- Carry a pending model over without executing it. -/
def settle (outcome : ModelId → Option ExecutionStatus) (s : Sched) (id : ModelId) :
    Sched :=
  if s.status id = .pending then
    match outcome id with
    | some status => s.satisfy sch id status
    | none => s
  else s

/-- One pass over the planned models that carries some of them over. -/
def settleAll (outcome : ModelId → Option ExecutionStatus) (s : Sched) : Sched :=
  sch.planned.foldl (settle sch outcome) s

/-- Block a pending model that reads a failed seed, and what is below it. -/
def blockSeedReader (readsFailedSeed : ModelId → Bool) (s : Sched) (id : ModelId) :
    Sched :=
  if s.status id = .pending && readsFailedSeed id then
    (s.finish id .blocked).blockBelow sch id
  else s

def blockSeedReaders (readsFailedSeed : ModelId → Bool) (s : Sched) : Sched :=
  sch.planned.foldl (blockSeedReader sch readsFailedSeed) s

/-- Queue the pending models without unsatisfied planned dependencies. -/
def enqueueReady (s : Sched) : Sched :=
  { s with ready := sch.planned.filter fun id =>
      decide (s.remaining id = 0) && decide (s.status id = .pending) }

/-! ## The main loop -/

/-- The loop condition and the two shutdown checks. -/
def tickHead (s : Sched) : Sched :=
  if s.inflight = [] ∧ s.ready = [] then { s with phase := .drain }
  else if s.cancelled || s.failFast then { s with phase := .drain }
  else if s.cancelRequested then { s with cancelled := true, phase := .drain }
  else { s with phase := .fill }

/-- Take one model from the queue, or go on to wait. -/
def tickFill (s : Sched) : Sched :=
  match s.ready with
  | id :: rest =>
    if s.inflight.length < max options.concurrency 1 then
      if s.status id = .pending then
        { s with
          ready := rest
          status := Function.update s.status id .running
          inflight := s.inflight ++ [id]
          started := s.started ++ [id] }
      else { s with ready := rest }
    else { s with phase := .wait }
  | [] => if s.inflight = [] then { s with phase := .drain } else { s with phase := .wait }

/-- The model that the next round of filling starts, if it starts one. -/
def dispatched (s : Sched) : Option ModelId :=
  match s.ready with
  | id :: _ =>
    if s.inflight.length < max options.concurrency 1 ∧ s.status id = .pending then some id
    else none
  | [] => none

/-- A task collected by the main loop succeeded. -/
def passMain (s : Sched) (id : ModelId) : Sched :=
  let s := { s with inflight := s.inflight.erase id, phase := .head }
  let s := s.satisfy sch id .passed
  { s with ready := s.ready ++ s.newReady sch id }

/-- A task collected by the main loop failed. -/
def failMain (s : Sched) (id : ModelId) : Sched :=
  let s := { s with inflight := s.inflight.erase id, phase := .head }
  let s := (s.finish id .failed).blockBelow sch id
  if options.failFast then { s with failFast := true, ready := [] } else s

/-! ## Shutting down -/

/-- A task collected by the drain loop succeeded. -/
def passDrain (s : Sched) (id : ModelId) : Sched :=
  let s := { s with inflight := s.inflight.erase id }
  if (s.status id).isTerminal then s else s.satisfy sch id .passed

/-- A task collected by the drain loop failed. -/
def failDrain (s : Sched) (id : ModelId) : Sched :=
  let s := { s with inflight := s.inflight.erase id }
  if (s.status id).isTerminal then s else (s.finish id .failed).blockBelow sch id

/-- The status of a model that never reached a terminal one. -/
def leftoverStatus (s : Sched) : ExecutionStatus :=
  if s.cancelled || s.failFast then .cancelled else .blocked

/-- The models of a list that have not finished. -/
def unfinished (s : Sched) (ids : List ModelId) : List ModelId :=
  ids.filter fun id => !(s.status id).isTerminal

def sweepOne (s : Sched) (id : ModelId) : Sched :=
  if (s.status id).isTerminal then s else s.finish id s.leftoverStatus

/-- Classify what is left once no task is in flight. -/
def sweep (s : Sched) : Sched :=
  { sch.planned.foldl sweepOne s with phase := .done }

def step (s : Sched) : SchedEvent → Option Sched
  | .tick =>
    match s.phase with
    | .head => some s.tickHead
    | .fill => some (s.tickFill options)
    | .drain => if s.inflight = [] then some (s.sweep sch) else none
    | .wait | .done => none
  | .requestCancel => some { s with cancelRequested := true }
  | .noticeCancel =>
    if s.phase = .wait ∧ s.cancelRequested = true then
      some { s with cancelled := true, phase := .drain }
    else none
  | .join id ok =>
    if id ∈ s.inflight then
      match s.phase with
      | .wait => some (if ok then s.passMain sch id else s.failMain sch options id)
      | .drain => some (if ok then s.passDrain sch id else s.failDrain sch id)
      | .head | .fill | .done => none
    else none
  | .abort id =>
    if s.phase = .drain ∧ id ∈ s.inflight ∧ (s.cancelled || s.failFast) = true then
      some { s with inflight := s.inflight.erase id }
    else none

end Sched

def loopSystem (sch : Schedule) (options : LoopOptions) : StepSystem Sched SchedEvent where
  step := Sched.step sch options

/-- What has been decided before the loop: the models reused from an earlier
invocation, the models skipped or adopted, the readers of failed seeds, and
whether the seed loads were stopped. -/
structure Prelude where
  reused : ModelId → Option ExecutionStatus
  settled : ModelId → Option ExecutionStatus
  readsFailedSeed : ModelId → Bool
  cancelRequested : Bool
  cancelled : Bool
  failFast : Bool

/-- The state in which the loop is entered. -/
def Prelude.enter (p : Prelude) (sch : Schedule) : Sched :=
  ((((Sched.initial sch p.cancelRequested p.cancelled p.failFast).settleAll sch
    p.reused).settleAll sch p.settled).blockSeedReaders sch
      p.readsFailedSeed).enqueueReady sch

end PhloTransform.Engine
