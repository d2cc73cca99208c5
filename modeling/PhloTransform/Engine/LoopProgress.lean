import PhloTransform.Core.Compiled
import PhloTransform.Engine.Confluence

/-!
# Progress of the scheduling loop

Whatever fails and whenever cancellation is requested, the loop keeps its
concurrency limit, starts no model twice and none once it is stopping, and comes to
an end.

Main results:

- Theorem `Prelude.inflight_le_of_run`: no run exceeds its concurrency.
- Theorem `Prelude.ends_of_run`: every run is bounded, and none gets stuck.
-/

namespace PhloTransform.Engine

open Core (ModelId)
open Library (StepSystem)

/-- The events that move the loop; a request for cancellation only sets a flag. -/
def SchedEvent.moves : SchedEvent → Bool
  | .requestCancel => false
  | .tick | .noticeCancel | .join _ _ | .abort _ => true

namespace Sched

variable {sch : Schedule} {options : LoopOptions}
variable {s s' : Sched} {id : ModelId} {event : SchedEvent}

/-! ## The tasks -/

theorem inflight_le_of_step (hlimit : s.inflight.length ≤ max options.concurrency 1)
    (hstep : s.step sch options event = some s') :
    s'.inflight.length ≤ max options.concurrency 1 := by
  rcases tasks_of_stepTo (stepTo_of_step hstep) with
    ⟨-, heq | ⟨id, heq⟩⟩ | ⟨id, rest, -, -, -, -, hroom, rfl⟩
  · rwa [heq]
  · rw [heq]
    exact le_trans List.length_erase_le hlimit
  · rw [List.length_append, List.length_singleton]
    exact hroom

/-- A loop that is stopping stays so. -/
theorem stopping_of_step (hstop : s.stopping = true)
    (hstep : s.step sch options event = some s') : s'.stopping = true := by
  cases stepTo_of_step hstep with
  | head hphase =>
    have hflags : (s.cancelled || s.failFast) = true := hstop
    rw [Sched.tickHead, if_pos hflags, ite_self]
    exact hstop
  | fill hphase =>
    unfold Sched.tickFill
    split
    · split
      · split <;> exact hstop
      · exact hstop
    · split <;> exact hstop
  | sweep hphase hidle =>
    rw [sweep_eq]
    exact hstop
  | requestCancel => exact hstop
  | noticeCancel hphase hrequested => rfl
  | passMain hphase hid => exact hstop
  | failMain hphase hid =>
    unfold Sched.failMain
    simp only
    split
    · exact Bool.or_true _
    · exact hstop
  | passDrain hphase hid =>
    unfold Sched.passDrain
    simp only
    split <;> exact hstop
  | failDrain hphase hid =>
    unfold Sched.failDrain
    simp only
    split <;> exact hstop
  | abort hphase hid hstopping => exact hstop

/-- The started models are planned, each is started once, and none is pending
again. -/
structure StartedOnce (sch : Schedule) (s : Sched) : Prop where
  nodup : s.started.Nodup
  planned : ∀ id ∈ s.started, id ∈ sch.planned
  not_pending : ∀ id ∈ s.started, s.status id ≠ .pending

/-! ## The length of a run -/

theorem work_passDrain (hinv : s.LoopInv sch) (hid : id ∈ s.inflight) :
    work sch (s.passDrain sch id) < work sch s := by
  have hrun := hinv.inflight_running id hid
  rw [passDrain_of_running hrun]
  refine work_lt_of_finished (hinv.planned_of_inflight hid)
    (by simp [hrun, ExecutionStatus.isTerminal]) (by simp [ExecutionStatus.isTerminal])
    (fun j hj => ?_) (Nat.le_add_right _ _)
  by_cases hne : j = id
  · subst hne
    simp [ExecutionStatus.isTerminal]
  · simpa [hne] using hj

theorem work_failDrain (hinv : s.LoopInv sch) (hid : id ∈ s.inflight) :
    work sch (s.failDrain sch id) < work sch s := by
  have hrun := hinv.inflight_running id hid
  rw [failDrain_of_running hrun]
  refine work_lt_of_finished (hinv.planned_of_inflight hid)
    (by simp [hrun, ExecutionStatus.isTerminal]) ?_
    (fun j hj => isTerminal_failBelow rfl hj) (Nat.le_add_right _ _)
  rw [failBelow_status]
  split
  · rfl
  · simp [ExecutionStatus.isTerminal]

/-- Every event that moves the loop lowers this number, also while the loop is
stopping. -/
def effort (sch : Schedule) (s : Sched) : Nat :=
  3 * work sch s + s.inflight.length + if s.phase = .wait then 1 else 0

theorem effort_lt_of_work_lt (hwork : work sch s' < work sch s)
    (hstep : s.step sch options event = some s') : effort sch s' < effort sch s := by
  have hinflight : s'.inflight.length ≤ s.inflight.length + 1 := by
    rcases tasks_of_stepTo (stepTo_of_step hstep) with
      ⟨-, heq | ⟨id, heq⟩⟩ | ⟨id, rest, -, -, -, -, -, rfl⟩
    · rw [heq]
      exact Nat.le_succ _
    · rw [heq]
      exact le_trans List.length_erase_le (Nat.le_succ _)
    · rw [List.length_append, List.length_singleton]
  unfold effort
  split <;> split <;> omega

theorem LoopInv.effort_lt (h : s.LoopInv sch) (hstep : s.step sch options event = some s')
    (hmoves : event.moves = true) : effort sch s' < effort sch s := by
  cases stepTo_of_step hstep with
  | head hphase => exact effort_lt_of_work_lt (work_tickHead hphase) hstep
  | fill hphase => exact effort_lt_of_work_lt (work_tickFill options hphase) hstep
  | sweep hphase hidle => exact effort_lt_of_work_lt (work_sweep hphase) hstep
  | requestCancel => simp [SchedEvent.moves] at hmoves
  | noticeCancel hphase hrequested =>
    -- The pass ends either way; only the last summand tells the phases apart.
    have hwork : work sch { s with cancelled := true, phase := .drain } = work sch s := by
      simp [work, unfinished, hphase, phaseRank]
    simp [effort, hwork, hphase]
  | passMain hphase hid => exact effort_lt_of_work_lt (work_passMain h hid) hstep
  | failMain hphase hid => exact effort_lt_of_work_lt (work_failMain h hid) hstep
  | passDrain hphase hid => exact effort_lt_of_work_lt (work_passDrain h hid) hstep
  | failDrain hphase hid => exact effort_lt_of_work_lt (work_failDrain h hid) hstep
  | @abort aborted hphase hid hstop =>
    have hfewer := List.length_erase_add_one hid
    change 3 * work sch s + (s.inflight.erase aborted).length +
      (if s.phase = .wait then 1 else 0) < effort sch s
    unfold effort
    omega

theorem LoopInv.exists_step (h : s.LoopInv sch) (hlive : s.phase ≠ .done) :
    ∃ event s', event.moves = true ∧ s.step sch options event = some s' := by
  cases hphase : s.phase with
  | head => exact ⟨.tick, s.tickHead, rfl, by simp [Sched.step, hphase]⟩
  | fill => exact ⟨.tick, s.tickFill options, rfl, by simp [Sched.step, hphase]⟩
  | wait =>
    obtain ⟨id, hid⟩ := List.exists_mem_of_ne_nil _ (h.wait_inflight hphase)
    exact ⟨.join id true, s.passMain sch id, rfl, by simp [Sched.step, hphase, hid]⟩
  | drain =>
    by_cases hidle : s.inflight = []
    · exact ⟨.tick, s.sweep sch, rfl, by simp [Sched.step, hphase, hidle]⟩
    · obtain ⟨id, hid⟩ := List.exists_mem_of_ne_nil _ hidle
      exact ⟨.join id true, s.passDrain sch id, rfl, by simp [Sched.step, hphase, hid]⟩
  | done => exact absurd hphase hlive

end Sched

/-! ## One model -/

namespace Sample

def lone : Schedule where
  planned := [Core.Sample.rawModel.id]
  planned_nodup := List.nodup_singleton _
  modelDependencies := fun _ => []
  dependencies_nodup := fun _ => List.nodup_nil

/-- Nothing is carried over; cancellation may have come while the seeds were loaded. -/
def untouched (cancelled : Bool) : Prelude where
  reused := fun _ => none
  settled := fun _ => none
  readsFailedSeed := fun _ => false
  cancelRequested := false
  cancelled := cancelled
  failFast := false

theorem untouched_valid (cancelled : Bool) : (untouched cancelled).Valid := by
  constructor <;> simp [untouched, Sched.CarriesOver]

theorem untouched_runs (cancelled : Bool) :
    ∃ s, (loopSystem lone ⟨0, false⟩).run ((untouched cancelled).enter lone) [.tick, .tick] =
      some s := by
  refine Option.isSome_iff_exists.1 ?_
  revert cancelled
  decide +kernel

end Sample

/-! ## Whole runs -/

namespace Prelude

variable {sch : Schedule} {options : LoopOptions} {p : Prelude}
variable {events : List SchedEvent} {s s' t : Sched} {event : SchedEvent}

theorem Reached.effort_le (h : Reached sch p s) (hstep : s.step sch options event = some s') :
    (if event.moves then 1 else 0) + s'.effort sch ≤ s.effort sch := by
  rcases h with ⟨-, hinv, -⟩ | ⟨u, c, -, -, -, -, rfl⟩
  · cases hmoves : event.moves with
    | true =>
      rw [if_pos rfl, Nat.add_comm]
      exact hinv.effort_lt hstep hmoves
    | false =>
      cases event <;> simp [SchedEvent.moves] at hmoves
      cases hstep
      simp [Sched.effort, Sched.work, Sched.unfinished]
  · cases Sched.stepTo_of_step hstep with
    | requestCancel => simp [SchedEvent.moves, Sched.effort, Sched.work, Sched.unfinished]
    | head hp | fill hp | sweep hp | noticeCancel hp | passMain hp | failMain hp
    | passDrain hp | failDrain hp | abort hp => simp [Sched.sweep] at hp

theorem Reached.startedOnce (h : Reached sch p s) (honce : s.StartedOnce sch)
    (hstep : s.step sch options event = some s') : s'.StartedOnce sch := by
  have hkept : ∀ id ∈ s.started, s'.status id ≠ .pending := fun id hid hpending =>
    honce.not_pending id hid (h.pending_of_step hstep hpending)
  rcases Sched.tasks_of_stepTo (Sched.stepTo_of_step hstep) with
    ⟨hsame, -⟩ | ⟨id, rest, hphase, -, hready, hpending, -, rfl⟩
  · exact ⟨hsame ▸ honce.nodup, hsame ▸ honce.planned, hsame ▸ hkept⟩
  · have hplanned : id ∈ sch.planned := by
      rcases h with ⟨-, hinv, -⟩ | ⟨u, c, -, -, -, -, rfl⟩
      · exact (hinv.ready_zero id (by simp [hready])).1
      · simp [Sched.sweep] at hphase
    have hnew : id ∉ s.started := fun hid => honce.not_pending id hid hpending
    refine ⟨?_, fun j hj => ?_, fun j hj => ?_⟩
    · have hconcat := honce.nodup.concat hnew
      rwa [List.concat_eq_append] at hconcat
    · rcases List.mem_append.1 hj with hj | hj
      · exact honce.planned j hj
      · rw [List.mem_singleton.1 hj]
        exact hplanned
    · rcases List.mem_append.1 hj with hj | hj
      · exact hkept j hj
      · simp [List.mem_singleton.1 hj]

variable (sch) in
theorem enter_inflight (hp : p.Valid) : (p.enter sch).inflight = [] :=
  ((settled_entryInv sch hp).blockSeedReaders p.readsFailedSeed (fun _ h => h)).1.inflight_nil

/-- In every state of every run at most as many tasks are in flight as the
concurrency allows. -/
theorem inflight_le_of_run (hp : p.Valid)
    (hrun : (loopSystem sch options).run (p.enter sch) events = some s) :
    s.inflight.length ≤ max options.concurrency 1 :=
  (loopSystem sch options).run_invariant
    (fun _ _ _ h hstep => Sched.inflight_le_of_step h hstep)
    (by simp [enter_inflight sch hp]) hrun

theorem inflight_le_of_run_lone :
    ∃ s, (loopSystem Sample.lone ⟨0, false⟩).run ((Sample.untouched false).enter Sample.lone)
      [.tick, .tick] = some s ∧ s.inflight.length ≤ max 0 1 := by
  obtain ⟨s, hrun⟩ := Sample.untouched_runs false
  exact ⟨s, hrun, inflight_le_of_run (Sample.untouched_valid false) hrun⟩

/-- No run starts a model twice, or one that is not planned. -/
theorem startedOnce_of_run (hp : p.Valid)
    (hrun : (loopSystem sch options).run (p.enter sch) events = some s) :
    s.started.Nodup ∧ ∀ id ∈ s.started, id ∈ sch.planned := by
  have hnone : (p.enter sch).started = [] := congrArg Prod.snd (enter_flags sch p)
  have honce := (loopSystem sch options).run_invariant
    (P := fun u => Reached sch p u ∧ u.StartedOnce sch)
    (fun _ _ _ ⟨h, hu⟩ hstep => ⟨h.step hp hstep, h.startedOnce hu hstep⟩)
    ⟨reached_of_run hp (StepSystem.run_nil (loopSystem sch options) (p.enter sch)),
      by simp [hnone], by simp [hnone], by simp [hnone]⟩ hrun
  exact ⟨honce.2.nodup, honce.2.planned⟩

theorem startedOnce_of_run_lone :
    ∃ s, (loopSystem Sample.lone ⟨0, false⟩).run ((Sample.untouched false).enter Sample.lone)
      [.tick, .tick] = some s ∧ s.started.Nodup ∧ ∀ id ∈ s.started, id ∈ Sample.lone.planned := by
  obtain ⟨s, hrun⟩ := Sample.untouched_runs false
  exact ⟨s, hrun, startedOnce_of_run (Sample.untouched_valid false) hrun⟩

/-- From a state on in which a run is stopping, because it was cancelled or because
a model failed, no model is started. -/
theorem started_eq_of_stopping (hp : p.Valid)
    (hrun : (loopSystem sch options).run (p.enter sch) events = some s)
    (hstop : s.stopping = true) {later : List SchedEvent}
    (hlater : (loopSystem sch options).run s later = some t) : t.started = s.started := by
  have hkept := (loopSystem sch options).run_invariant
    (P := fun u => (Reached sch p u ∧ p.Shutdown u) ∧ u.stopping = true ∧
      u.started = s.started)
    (fun u event u' ⟨⟨hreached, hshut⟩, hustop, hustarted⟩ hstep => by
      refine ⟨⟨hreached.step hp hstep, hshut.step hreached hstep⟩,
        Sched.stopping_of_step hustop hstep, ?_⟩
      rcases Sched.tasks_of_stepTo (Sched.stepTo_of_step hstep) with
        ⟨hsame, -⟩ | ⟨id, rest, hphase, -⟩
      · exact hsame.trans hustarted
      · simp [hshut.fill_open hphase] at hustop)
    ⟨⟨reached_of_run hp hrun, shutdown_of_run hp hrun⟩, hstop, rfl⟩ hlater
  exact hkept.2.2

theorem started_eq_of_stopping_lone :
    ∃ t, (loopSystem Sample.lone ⟨0, false⟩).run ((Sample.untouched true).enter Sample.lone)
      [.tick, .tick] = some t ∧
        t.started = ((Sample.untouched true).enter Sample.lone).started := by
  obtain ⟨t, hrun⟩ := Sample.untouched_runs true
  exact ⟨t, hrun, started_eq_of_stopping (Sample.untouched_valid true)
    (StepSystem.run_nil (loopSystem Sample.lone ⟨0, false⟩) _) (by decide +kernel) hrun⟩

/-- Whatever fails and whenever cancellation is requested, the events that move the
loop are bounded by the effort of the state in which it is entered, and until it is
done such an event is possible. -/
theorem ends_of_run (hp : p.Valid)
    (hrun : (loopSystem sch options).run (p.enter sch) events = some s) :
    events.countP SchedEvent.moves ≤ (p.enter sch).effort sch ∧
      (s.phase ≠ .done → ∃ event s', event.moves = true ∧
        (loopSystem sch options).step s event = some s') := by
  have hreached := reached_of_run hp hrun
  constructor
  · have hbound : events.countP SchedEvent.moves + s.effort sch ≤ (p.enter sch).effort sch :=
      (loopSystem sch options).countP_add_measure_le (P := Reached sch p)
        (fun _ _ _ h hstep => h.step hp hstep) (fun _ _ _ h hstep => h.effort_le hstep)
        (reached_of_run hp (StepSystem.run_nil (loopSystem sch options) (p.enter sch))) hrun
    omega
  · intro hlive
    rcases hreached with ⟨-, hinv, -⟩ | ⟨u, c, -, -, -, -, rfl⟩
    · exact hinv.exists_step hlive
    · simp [Sched.sweep] at hlive

theorem ends_of_run_lone :
    ∃ s, (loopSystem Sample.lone ⟨0, false⟩).run ((Sample.untouched false).enter Sample.lone)
      [.tick, .tick] = some s ∧
        2 ≤ ((Sample.untouched false).enter Sample.lone).effort Sample.lone := by
  obtain ⟨s, hrun⟩ := Sample.untouched_runs false
  exact ⟨s, hrun, (ends_of_run (Sample.untouched_valid false) hrun).1⟩

end Prelude
end PhloTransform.Engine
