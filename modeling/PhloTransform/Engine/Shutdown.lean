import PhloTransform.Engine.LoopRun

/-!
# Stopping a run

Cancellation and fail-fast are flags: once set they stay, and a loop that is
stopping dispatches nothing more.

Main results:

- Theorem `Prelude.enter_flags`: entering the loop sets no flag.
- Theorem `Prelude.shutdown_of_run`: what the flags say in every state of a run.
-/

namespace PhloTransform.Engine

open Core (ModelId)
open Library (StepSystem)

namespace Prelude

variable {sch : Schedule} {options : LoopOptions} {p : Prelude}

/-- The flags that stop a run, and the models it has started. -/
def flags (s : Sched) : (Bool × Bool × Bool) × List ModelId :=
  ((s.cancelRequested, s.cancelled, s.failFast), s.started)

theorem foldl_flags {f : Sched → ModelId → Sched} (hf : ∀ s id, flags (f s id) = flags s)
    (ids : List ModelId) (s : Sched) : flags (ids.foldl f s) = flags s := by
  induction ids generalizing s with
  | nil => rfl
  | cons id ids ih => rw [List.foldl_cons, ih, hf]

theorem settle_flags (carried : ModelId → Option ExecutionStatus) (s : Sched)
    (id : ModelId) : flags (Sched.settle sch carried s id) = flags s := by
  unfold Sched.settle
  split
  · split <;> rfl
  · rfl

theorem blockSeedReader_flags (readsFailedSeed : ModelId → Bool) (s : Sched)
    (id : ModelId) : flags (Sched.blockSeedReader sch readsFailedSeed s id) = flags s := by
  unfold Sched.blockSeedReader
  split <;> rfl

variable (sch) in
/-- Deciding what to carry over and what to block neither stops the run nor starts
a model. -/
theorem enter_flags (p : Prelude) :
    flags (p.enter sch) = ((p.cancelRequested, p.cancelled, p.failFast), []) :=
  (foldl_flags (blockSeedReader_flags p.readsFailedSeed) _ _).trans
    ((foldl_flags (settle_flags p.settled) _ _).trans
      (foldl_flags (settle_flags p.reused) _ _))

variable (sch) in
theorem enter_status (hp : p.Valid) (id : ModelId) :
    (p.enter sch).status id = .pending ∨ (p.enter sch).status id = .skipped ∨
      (p.enter sch).status id = .cached ∨ (p.enter sch).status id = .blocked :=
  ((settled_entryInv sch hp).blockSeedReaders p.readsFailedSeed fun _ h => h).1.quiet id

/-- How a run stops: a stopping loop dispatches nothing, flags stay, and fail-fast
has a failure behind it. -/
structure Shutdown (p : Prelude) (s : Sched) : Prop where
  fill_open : s.phase = .fill → s.stopping = false
  cancelled : p.cancelled = true → s.cancelled = true
  failFast : p.failFast = true → s.failFast = true
  failFast_reason : s.failFast = true → p.failFast = true ∨ ∃ id, s.status id = .failed

variable (sch) in
theorem enter_shutdown (hp : p.Valid) : p.Shutdown (p.enter sch) := by
  have hflags := enter_flags sch p
  simp only [flags, Prod.mk.injEq] at hflags
  obtain ⟨⟨-, hcancelled, hfailFast⟩, -⟩ := hflags
  refine ⟨by simp [enter_phase sch hp], fun h => hcancelled.trans h,
    fun h => hfailFast.trans h, fun h => Or.inl (hfailFast.symm.trans h)⟩

/-- An event that keeps the flags and does not lead to dispatching. -/
theorem Shutdown.of_flags {s s' : Sched} (h : p.Shutdown s)
    (hfailed : ∀ id, s.status id = .failed → s'.status id = .failed)
    (hflags : s'.cancelled = s.cancelled ∧ s'.failFast = s.failFast)
    (hphase : s'.phase = .fill → s.stopping = false) : p.Shutdown s' where
  fill_open := fun hfill => by
    rw [Sched.stopping, hflags.1, hflags.2]
    exact hphase hfill
  cancelled := fun hp => hflags.1.trans (h.cancelled hp)
  failFast := fun hp => hflags.2.trans (h.failFast hp)
  failFast_reason := fun hflag =>
    (h.failFast_reason (hflags.2 ▸ hflag)).imp_right fun ⟨id, hid⟩ => ⟨id, hfailed id hid⟩

theorem Shutdown.step {s s' : Sched} {event : SchedEvent} (h : p.Shutdown s)
    (hreached : Reached sch p s) (hstep : s.step sch options event = some s') : p.Shutdown s' := by
  have hfailed : ∀ id, s.status id = .failed → s'.status id = .failed := fun id hid =>
    (hreached.status_eq_of_terminal hstep (by rw [hid]; rfl)).trans hid
  cases Sched.stepTo_of_step hstep with
  | requestCancel => exact h.of_flags hfailed ⟨rfl, rfl⟩ h.fill_open
  | abort hphase hid hstop => exact h.of_flags hfailed ⟨rfl, rfl⟩ h.fill_open
  | noticeCancel hphase hrequested =>
    exact ⟨by simp, fun _ => rfl, h.failFast, h.failFast_reason⟩
  | head hphase =>
    unfold Sched.tickHead
    split
    · exact h.of_flags (fun _ hid => hid) ⟨rfl, rfl⟩ (by simp)
    · split
      · exact h.of_flags (fun _ hid => hid) ⟨rfl, rfl⟩ (by simp)
      · next hopen =>
          split
          · exact ⟨by simp, fun _ => rfl, h.failFast, h.failFast_reason⟩
          · exact h.of_flags (fun _ hid => hid) ⟨rfl, rfl⟩ fun _ => by
              simpa [Sched.stopping] using hopen
  | fill hphase =>
    have hopen := h.fill_open hphase
    refine h.of_flags hfailed ?_ fun _ => hopen
    unfold Sched.tickFill
    split
    · split
      · split <;> exact ⟨rfl, rfl⟩
      · exact ⟨rfl, rfl⟩
    · split <;> exact ⟨rfl, rfl⟩
  | sweep hphase hidle =>
    refine h.of_flags hfailed ?_ ?_
    · simp [Sched.sweep_eq]
    · simp [Sched.sweep_eq]
  | passMain hphase hid => exact h.of_flags hfailed ⟨rfl, rfl⟩ (by simp [Sched.passMain,
      Sched.satisfy, Sched.finish])
  | @failMain id hphase hid =>
    have hself : (s.failMain sch options id).status id = .failed := by
      rw [Sched.failMain_status, Sched.failBelow_status, if_neg fun hmem =>
        (Sched.open_of_mem_newlyBlocked rfl hmem).1 rfl, Function.update_self]
    have hflags : (s.failMain sch options id).phase = .head ∧
        (s.failMain sch options id).cancelled = s.cancelled ∧
        (s.failFast = true → (s.failMain sch options id).failFast = true) := by
      unfold Sched.failMain
      simp only
      split <;> simp [Sched.blockBelow, Sched.finish]
    exact ⟨by simp [hflags.1], fun hp => hflags.2.1.trans (h.cancelled hp),
      fun hp => hflags.2.2 (h.failFast hp), fun _ => Or.inr ⟨id, hself⟩⟩
  | passDrain hphase hid =>
    refine h.of_flags hfailed ?_ ?_
    · unfold Sched.passDrain
      simp only
      split <;> exact ⟨rfl, rfl⟩
    · unfold Sched.passDrain
      simp only
      split <;> simp [Sched.satisfy, Sched.finish, hphase]
  | failDrain hphase hid =>
    refine h.of_flags hfailed ?_ ?_
    · unfold Sched.failDrain
      simp only
      split <;> exact ⟨rfl, rfl⟩
    · unfold Sched.failDrain
      simp only
      split <;> simp [Sched.blockBelow, Sched.finish, hphase]

theorem shutdown_of_run (hp : p.Valid) {events : List SchedEvent} {s : Sched}
    (hrun : (loopSystem sch options).run (p.enter sch) events = some s) : p.Shutdown s := by
  have hboth : Reached sch p s ∧ p.Shutdown s :=
    (loopSystem sch options).run_invariant
      (P := fun s => Reached sch p s ∧ p.Shutdown s)
      (fun _ _ _ h hstep => ⟨h.1.step hp hstep, h.2.step h.1 hstep⟩)
      ⟨reached_of_run hp (StepSystem.run_nil (loopSystem sch options) (p.enter sch)),
        enter_shutdown sch hp⟩ hrun
  exact hboth.2

end Prelude
end PhloTransform.Engine
