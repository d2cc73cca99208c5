import PhloTransform.Engine.SchedulerInvariant

/-!
# What the scheduling loop maintains

The loop invariant adds the ready queue and the tasks in flight to the
bookkeeping.  Every event keeps it until the leftover models are swept.

Main results:

- Theorem `Sched.stepTo_of_step`: the cases of one event.
- Theorem `Sched.LoopInv.step`: one event keeps the loop invariant.
-/

namespace PhloTransform.Engine

open Core (ModelId)
open Library (Marker StepSystem)

namespace Sched

variable {sch : Schedule} {options : LoopOptions}

/-! ## What one event can do -/

/-- The cases of one event. -/
inductive StepTo (sch : Schedule) (options : LoopOptions) (s : Sched) :
    SchedEvent → Sched → Prop
  | head : s.phase = .head → StepTo sch options s .tick s.tickHead
  | fill : s.phase = .fill → StepTo sch options s .tick (s.tickFill options)
  | sweep : s.phase = .drain → s.inflight = [] → StepTo sch options s .tick (s.sweep sch)
  | requestCancel : StepTo sch options s .requestCancel { s with cancelRequested := true }
  | noticeCancel : s.phase = .wait → s.cancelRequested = true →
      StepTo sch options s .noticeCancel { s with cancelled := true, phase := .drain }
  | passMain {id : ModelId} : s.phase = .wait → id ∈ s.inflight →
      StepTo sch options s (.join id true) (s.passMain sch id)
  | failMain {id : ModelId} : s.phase = .wait → id ∈ s.inflight →
      StepTo sch options s (.join id false) (s.failMain sch options id)
  | passDrain {id : ModelId} : s.phase = .drain → id ∈ s.inflight →
      StepTo sch options s (.join id true) (s.passDrain sch id)
  | failDrain {id : ModelId} : s.phase = .drain → id ∈ s.inflight →
      StepTo sch options s (.join id false) (s.failDrain sch id)
  | abort {id : ModelId} : s.phase = .drain → id ∈ s.inflight →
      (s.cancelled || s.failFast) = true →
      StepTo sch options s (.abort id) { s with inflight := s.inflight.erase id }

theorem stepTo_of_step {s s' : Sched} {event : SchedEvent}
    (hstep : s.step sch options event = some s') : StepTo sch options s event s' := by
  cases event with
  | tick =>
    simp only [Sched.step] at hstep
    split at hstep
    · next hphase => cases hstep; exact .head hphase
    · next hphase => cases hstep; exact .fill hphase
    · next hphase =>
        split at hstep
        · next hidle => cases hstep; exact .sweep hphase hidle
        · cases hstep
    · cases hstep
    · cases hstep
  | requestCancel => cases hstep; exact .requestCancel
  | noticeCancel =>
    simp only [Sched.step] at hstep
    split at hstep
    · next hcond => cases hstep; exact .noticeCancel hcond.1 hcond.2
    · cases hstep
  | join id ok =>
    simp only [Sched.step] at hstep
    split at hstep
    · next hid =>
        split at hstep
        · next hphase =>
            cases hstep
            cases ok with
            | true => exact .passMain hphase hid
            | false => exact .failMain hphase hid
        · next hphase =>
            cases hstep
            cases ok with
            | true => exact .passDrain hphase hid
            | false => exact .failDrain hphase hid
        · cases hstep
        · cases hstep
        · cases hstep
    · cases hstep
  | abort id =>
    simp only [Sched.step] at hstep
    split at hstep
    · next hcond => cases hstep; exact .abort hcond.1 hcond.2.1 hcond.2.2
    · cases hstep

/-! ## The queues -/

def stopping (s : Sched) : Bool :=
  s.cancelled || s.failFast

/-- The bookkeeping and both queues, as long as models are not swept. -/
structure LoopInv (sch : Schedule) (s : Sched) : Prop where
  consistent : s.Consistent sch
  inflight_nodup : s.inflight.Nodup
  inflight_running : ∀ id ∈ s.inflight, s.status id = .running
  running_inflight : s.stopping = false → ∀ id, s.status id = .running → id ∈ s.inflight
  ready_zero : ∀ id ∈ s.ready, id ∈ sch.planned ∧ s.remaining id = 0
  pending_ready : s.stopping = false → ∀ id ∈ sch.planned,
    s.status id = .pending → s.remaining id = 0 → id ∈ s.ready
  wait_inflight : s.phase = .wait → s.inflight ≠ []
  drain_idle : s.phase = .drain → s.stopping = false → s.inflight = [] ∧ s.ready = []
  not_cancelled : ∀ id, s.status id ≠ .cancelled

section Loop

variable {s : Sched}
variable {id j : ModelId}

theorem LoopInv.planned_of_inflight (h : s.LoopInv sch) (hid : id ∈ s.inflight) :
    id ∈ sch.planned :=
  h.consistent.planned_of_ne_pending (by simp [h.inflight_running id hid])

theorem LoopInv.openDependencies_of_inflight (h : s.LoopInv sch) (hid : id ∈ s.inflight) :
    openDependencies sch s id = [] :=
  h.consistent.executed id (Or.inl (h.inflight_running id hid))

theorem LoopInv.tickHead (h : s.LoopInv sch) : s.tickHead.LoopInv sch := by
  unfold Sched.tickHead
  split
  · next hidle =>
      exact { h with
        consistent := h.consistent.of_eq rfl rfl rfl
        wait_inflight := by simp
        drain_idle := fun _ _ => hidle }
  · split
    · next hstop =>
        have hstopping : s.stopping = true := hstop
        exact { h with
          consistent := h.consistent.of_eq rfl rfl rfl
          wait_inflight := by simp
          drain_idle := fun _ hnot => absurd (hstopping.symm.trans hnot) (by simp) }
    · split
      · exact {
          consistent := h.consistent.of_eq rfl rfl rfl
          inflight_nodup := h.inflight_nodup
          inflight_running := h.inflight_running
          running_inflight := by simp [stopping]
          ready_zero := h.ready_zero
          pending_ready := by simp [stopping]
          wait_inflight := by simp
          drain_idle := by simp [stopping]
          not_cancelled := h.not_cancelled }
      · exact { h with
          consistent := h.consistent.of_eq rfl rfl rfl
          wait_inflight := by simp
          drain_idle := by simp }

theorem LoopInv.tickFill (h : s.LoopInv sch) : (s.tickFill options).LoopInv sch := by
  unfold Sched.tickFill
  split
  · next id rest hready =>
      have hmem : id ∈ s.ready := by simp [hready]
      obtain ⟨hid, hzero⟩ := h.ready_zero id hmem
      have hrest : ∀ j ∈ rest, j ∈ sch.planned ∧ s.remaining j = 0 := fun j hj =>
        h.ready_zero j (by simp [hready, hj])
      split
      · split
        · next hpending =>
            have hnot : id ∉ s.inflight := fun hin => by
              simp [h.inflight_running id hin] at hpending
            refine ⟨h.consistent.dispatch hid hpending hzero rfl rfl rfl, ?_, ?_, ?_,
              hrest, ?_, ?_, ?_, ?_⟩
            · exact List.nodup_append.2 ⟨h.inflight_nodup, by simp, by
                rintro a ha b hb rfl
                exact hnot (List.mem_singleton.1 hb ▸ ha)⟩
            · intro j hj
              rcases List.mem_append.1 hj with hj | hj
              · have hne : j ≠ id := fun heq => hnot (heq ▸ hj)
                simp [hne, h.inflight_running j hj]
              · simp [List.mem_singleton.1 hj]
            · intro hstop j hj
              by_cases hne : j = id
              · simp [hne]
              · simp only [Function.update_of_ne hne] at hj
                exact List.mem_append_left _ (h.running_inflight hstop j hj)
            · intro hstop j hjp hj hjz
              by_cases hne : j = id
              · subst hne
                simp at hj
              · simp only [Function.update_of_ne hne] at hj
                have := h.pending_ready hstop j hjp hj hjz
                rw [hready, List.mem_cons] at this
                exact this.resolve_left hne
            · simp
            · intro hdrain hstop
              have := (h.drain_idle hdrain hstop).2
              simp [hready] at this
            · intro j
              by_cases hne : j = id
              · subst hne
                simp
              · simp [hne, h.not_cancelled j]
        · next hnotPending =>
            refine ⟨h.consistent.of_eq rfl rfl rfl, h.inflight_nodup, h.inflight_running,
              h.running_inflight, hrest, ?_, h.wait_inflight, ?_, h.not_cancelled⟩
            · intro hstop j hjp hj hjz
              have := h.pending_ready hstop j hjp hj hjz
              rw [hready, List.mem_cons] at this
              exact this.resolve_left fun heq => hnotPending (heq ▸ hj)
            · intro hdrain hstop
              have := (h.drain_idle hdrain hstop).2
              simp [hready] at this
      · next hfull =>
          have hbusy : s.inflight ≠ [] := by
            intro hnil
            simp only [hnil, List.length_nil] at hfull
            omega
          exact { h with
            consistent := h.consistent.of_eq rfl rfl rfl
            wait_inflight := fun _ => hbusy
            drain_idle := by simp }
  · next hready =>
      split
      · next hidle =>
          exact { h with
            consistent := h.consistent.of_eq rfl rfl rfl
            wait_inflight := by simp
            drain_idle := fun _ _ => ⟨hidle, hready⟩ }
      · next hbusy =>
          exact { h with
            consistent := h.consistent.of_eq rfl rfl rfl
            wait_inflight := fun _ => hbusy
            drain_idle := by simp }

/-- Collecting a task that succeeded keeps the bookkeeping. -/
theorem LoopInv.satisfy_consistent (h : s.LoopInv sch) (hid : id ∈ s.inflight) {t : Sched}
    (hstatus : t.status = s.status) (hremaining : t.remaining = s.remaining)
    (hfinished : t.finished = s.finished) : (t.satisfy sch id .passed).Consistent sch := by
  have ht : t.Consistent sch := h.consistent.of_eq hstatus hremaining hfinished
  have hnil : openDependencies sch t id = [] :=
    (openDependencies_congr id fun d _ => by rw [hstatus]).trans
      (h.openDependencies_of_inflight hid)
  refine ht.satisfy (h.planned_of_inflight hid) ?_ rfl fun _ => hnil
  rw [hstatus, h.inflight_running id hid]
  rfl

theorem LoopInv.running_of_mem_erase (h : s.LoopInv sch) (hj : j ∈ s.inflight.erase id) :
    j ≠ id ∧ s.status j = .running := by
  obtain ⟨hne, hmem⟩ := h.inflight_nodup.mem_erase_iff.1 hj
  exact ⟨hne, h.inflight_running j hmem⟩

theorem LoopInv.passMain (h : s.LoopInv sch) {id : ModelId} (hid : id ∈ s.inflight) :
    (s.passMain sch id).LoopInv sch := by
  have hrun := h.inflight_running id hid
  have hcons : ((({ s with inflight := s.inflight.erase id, phase := .head } :
      Sched)).satisfy sch id .passed).Consistent sch :=
    h.satisfy_consistent hid rfl rfl rfl
  refine ⟨hcons.of_eq rfl rfl rfl, h.inflight_nodup.erase id, ?_, ?_, ?_, ?_, ?_, ?_, ?_⟩
  · intro j hj
    obtain ⟨hne, hjrun⟩ := h.running_of_mem_erase hj
    simp [Sched.passMain, hne, hjrun]
  · intro hstop j hj
    by_cases hne : j = id
    · subst hne
      simp [Sched.passMain] at hj
    · simp only [Sched.passMain, satisfy_status, Function.update_of_ne hne] at hj
      exact (List.mem_erase_of_ne hne).2 (h.running_inflight hstop j hj)
  · intro j hj
    rcases List.mem_append.1 hj with hj | hj
    · obtain ⟨hjp, hjz⟩ := h.ready_zero j hj
      refine ⟨hjp, ?_⟩
      simp only [Sched.passMain, satisfy_remaining, Schedule.releaseDependents_apply, hjz]
      split <;> rfl
    · simp only [newReady, List.mem_filter, Bool.and_eq_true, decide_eq_true_eq] at hj
      exact ⟨(Schedule.mem_dependents.1 hj.1).1, hj.2.1⟩
  · intro hstop j hjp hj hjz
    have hne : j ≠ id := by
      rintro rfl
      simp [Sched.passMain] at hj
    by_cases hdep : j ∈ sch.dependents id
    · refine List.mem_append_right _ ?_
      simp only [newReady, List.mem_filter, Bool.and_eq_true, decide_eq_true_eq]
      exact ⟨hdep, hjz, hj⟩
    · refine List.mem_append_left _ (h.pending_ready hstop j hjp ?_ ?_)
      · simpa [Sched.passMain, hne] using hj
      · simpa [Sched.passMain, Schedule.releaseDependents_apply, hdep] using hjz
  · simp [Sched.passMain, Sched.satisfy, Sched.finish]
  · simp [Sched.passMain, Sched.satisfy, Sched.finish]
  · intro j
    by_cases hne : j = id
    · subst hne
      simp [Sched.passMain]
    · simp [Sched.passMain, hne, h.not_cancelled j]

theorem LoopInv.failBelow_status_of_ne (h : s.LoopInv sch) (hid : id ∈ s.inflight) (hne : j ≠ id)
    (hj : s.status j ≠ .pending) : (failBelow sch s id .failed).status j = s.status j := by
  have hopen : (s.status id).isTerminal = false := by
    simp [h.inflight_running id hid, ExecutionStatus.isTerminal]
  rw [failBelow_status, if_neg, Function.update_of_ne hne]
  exact fun hnew => hj (pending_of_mem_newlyBlocked h.consistent hopen rfl hnew)

theorem LoopInv.failBelow_consistent (h : s.LoopInv sch) (hid : id ∈ s.inflight) :
    (failBelow sch s id .failed).Consistent sch :=
  h.consistent.failBelow (h.planned_of_inflight hid)
    (by simp [h.inflight_running id hid, ExecutionStatus.isTerminal]) (Or.inl rfl)
    fun _ => h.openDependencies_of_inflight hid

theorem LoopInv.failBelow_not_cancelled (h : s.LoopInv sch) (j : ModelId) :
    (failBelow sch s id .failed).status j ≠ .cancelled := by
  rw [failBelow_status]
  split
  · simp
  · by_cases hne : j = id
    · subst hne
      simp
    · rw [Function.update_of_ne hne]
      exact h.not_cancelled j

theorem failBelow_open (hj : ((failBelow sch s id .failed).status j).isTerminal = false) :
    j ≠ id ∧ (failBelow sch s id .failed).status j = s.status j := by
  rw [failBelow_status] at hj ⊢
  split at hj
  · simp [ExecutionStatus.isTerminal] at hj
  · next hnew =>
      by_cases hne : j = id
      · subst hne
        simp [ExecutionStatus.isTerminal] at hj
      · exact ⟨hne, by rw [if_neg hnew, Function.update_of_ne hne]⟩

theorem LoopInv.failMain (h : s.LoopInv sch) {id : ModelId} (hid : id ∈ s.inflight) :
    (s.failMain sch options id).LoopInv sch := by
  have hcons := h.failBelow_consistent hid
  have hrunning : ∀ j ∈ s.inflight.erase id,
      (failBelow sch s id .failed).status j = .running := by
    intro j hj
    obtain ⟨hne, hjrun⟩ := h.running_of_mem_erase hj
    rw [h.failBelow_status_of_ne hid hne (by simp [hjrun]), hjrun]
  have hstatus : (s.failMain sch options id).status = (failBelow sch s id .failed).status := by
    unfold Sched.failMain
    simp only
    split <;> rfl
  have hremaining : (s.failMain sch options id).remaining = s.remaining := by
    unfold Sched.failMain
    simp only
    split <;> rfl
  have hinflight : (s.failMain sch options id).inflight = s.inflight.erase id := by
    unfold Sched.failMain
    simp only
    split <;> rfl
  have hphase : (s.failMain sch options id).phase = .head := by
    unfold Sched.failMain
    simp only
    split <;> rfl
  have hkeep : (s.failMain sch options id).stopping = false →
      s.stopping = false ∧ (s.failMain sch options id).ready = s.ready := by
    unfold Sched.failMain
    simp only
    split
    · simp [stopping]
    · exact fun hstop => ⟨hstop, rfl⟩
  have hready : ∀ j ∈ (s.failMain sch options id).ready, j ∈ s.ready := by
    unfold Sched.failMain
    simp only
    split
    · simp
    · exact fun j hj => hj
  refine ⟨hcons.of_eq hstatus hremaining ?_, ?_, ?_, ?_, ?_, ?_, ?_, ?_, ?_⟩
  · unfold Sched.failMain
    simp only
    split <;> rfl
  · rw [hinflight]
    exact h.inflight_nodup.erase id
  · rw [hinflight, hstatus]
    exact hrunning
  · intro hstop j hj
    rw [hstatus] at hj
    obtain ⟨hne, hsame⟩ := failBelow_open (by rw [hj]; rfl)
    rw [hinflight]
    refine (List.mem_erase_of_ne hne).2 (h.running_inflight (hkeep hstop).1 j ?_)
    rw [← hsame, hj]
  · intro j hj
    rw [hremaining]
    exact h.ready_zero j (hready j hj)
  · intro hstop j hjp hj hjz
    rw [hstatus] at hj
    obtain ⟨hne, hsame⟩ := failBelow_open (by rw [hj]; rfl)
    rw [(hkeep hstop).2]
    refine h.pending_ready (hkeep hstop).1 j hjp ?_ (hremaining ▸ hjz)
    rw [← hsame, hj]
  · simp [hphase]
  · simp [hphase]
  · rw [hstatus]
    exact h.failBelow_not_cancelled

theorem LoopInv.stopping_of_drain (h : s.LoopInv sch) (hphase : s.phase = .drain)
    (hid : id ∈ s.inflight) : s.stopping = true := by
  by_contra hnot
  have := (h.drain_idle hphase (by simpa using hnot)).1
  simp [this] at hid

theorem passDrain_of_running (hrun : s.status id = .running) :
    s.passDrain sch id =
      (({ s with inflight := s.inflight.erase id } : Sched)).satisfy sch id .passed := by
  simp [Sched.passDrain, hrun, ExecutionStatus.isTerminal]

theorem failDrain_of_running (hrun : s.status id = .running) :
    s.failDrain sch id =
      failBelow sch { s with inflight := s.inflight.erase id } id .failed := by
  simp [Sched.failDrain, hrun, ExecutionStatus.isTerminal, failBelow]

theorem LoopInv.passDrain (h : s.LoopInv sch) {id : ModelId} (hphase : s.phase = .drain)
    (hid : id ∈ s.inflight) : (s.passDrain sch id).LoopInv sch := by
  have hrun := h.inflight_running id hid
  have hstop := h.stopping_of_drain hphase hid
  have hcons : ((({ s with inflight := s.inflight.erase id } :
      Sched)).satisfy sch id .passed).Consistent sch :=
    h.satisfy_consistent hid rfl rfl rfl
  rw [passDrain_of_running hrun]
  refine ⟨hcons, h.inflight_nodup.erase id, ?_, ?_, ?_, ?_, ?_, ?_, ?_⟩
  · intro j hj
    obtain ⟨hne, hjrun⟩ := h.running_of_mem_erase hj
    simp [hne, hjrun]
  · intro hnot
    exact absurd (hstop.symm.trans hnot) (by simp)
  · intro j hj
    obtain ⟨hjp, hjz⟩ := h.ready_zero j hj
    refine ⟨hjp, ?_⟩
    simp only [satisfy_remaining, Schedule.releaseDependents_apply, hjz]
    split <;> rfl
  · intro hnot
    exact absurd (hstop.symm.trans hnot) (by simp)
  · simp [Sched.satisfy, Sched.finish, hphase]
  · intro _ hnot
    exact absurd (hstop.symm.trans hnot) (by simp)
  · intro j
    by_cases hne : j = id
    · subst hne
      simp
    · simp [hne, h.not_cancelled j]

theorem LoopInv.failDrain (h : s.LoopInv sch) {id : ModelId} (hphase : s.phase = .drain)
    (hid : id ∈ s.inflight) : (s.failDrain sch id).LoopInv sch := by
  have hrun := h.inflight_running id hid
  have hstop := h.stopping_of_drain hphase hid
  have hstatus : (s.failDrain sch id).status = (failBelow sch s id .failed).status := by
    simp [Sched.failDrain, hrun, ExecutionStatus.isTerminal, failBelow, Sched.blockBelow,
      Sched.finish]
  have heq : s.failDrain sch id = failBelow sch { s with inflight := s.inflight.erase id }
      id .failed :=
    failDrain_of_running hrun
  refine ⟨?_, ?_, ?_, ?_, ?_, ?_, ?_, ?_, ?_⟩
  · exact (h.failBelow_consistent hid).of_eq hstatus (by rw [heq]; rfl) (by rw [heq]; rfl)
  · rw [heq]
    exact h.inflight_nodup.erase id
  · rw [hstatus, heq]
    intro j hj
    obtain ⟨hne, hjrun⟩ := h.running_of_mem_erase hj
    rw [h.failBelow_status_of_ne hid hne (by simp [hjrun]), hjrun]
  · rw [heq]
    intro hnot
    exact absurd (hstop.symm.trans hnot) (by simp)
  · rw [heq]
    exact h.ready_zero
  · rw [heq]
    intro hnot
    exact absurd (hstop.symm.trans hnot) (by simp)
  · rw [heq]
    simp [failBelow, Sched.blockBelow, Sched.finish, hphase]
  · rw [heq]
    intro _ hnot
    exact absurd (hstop.symm.trans hnot) (by simp)
  · rw [hstatus]
    exact h.failBelow_not_cancelled

/-- One event keeps the loop invariant until the leftover models are swept. -/
theorem LoopInv.step (h : s.LoopInv sch) {event : SchedEvent} {s' : Sched}
    (hstep : s.step sch options event = some s') (hdone : s'.phase ≠ .done) : s'.LoopInv sch := by
  cases stepTo_of_step hstep with
  | head hphase => exact h.tickHead
  | fill hphase => exact h.tickFill
  | sweep hphase hidle => exact absurd rfl hdone
  | requestCancel => exact { h with consistent := h.consistent.of_eq rfl rfl rfl }
  | noticeCancel hphase hrequested =>
    exact {
      consistent := h.consistent.of_eq rfl rfl rfl
      inflight_nodup := h.inflight_nodup
      inflight_running := h.inflight_running
      running_inflight := by simp [stopping]
      ready_zero := h.ready_zero
      pending_ready := by simp [stopping]
      wait_inflight := by simp
      drain_idle := by simp [stopping]
      not_cancelled := h.not_cancelled }
  | passMain hphase hid => exact h.passMain hid
  | failMain hphase hid => exact h.failMain hid
  | passDrain hphase hid => exact h.passDrain hphase hid
  | failDrain hphase hid => exact h.failDrain hphase hid
  | abort hphase hid hstop =>
    have hstop : s.stopping = true := hstop
    exact {
      consistent := h.consistent.of_eq rfl rfl rfl
      inflight_nodup := h.inflight_nodup.erase _
      inflight_running := fun j hj => (h.running_of_mem_erase hj).2
      running_inflight := fun hnot => absurd (hstop.symm.trans hnot) (by simp)
      ready_zero := h.ready_zero
      pending_ready := fun hnot => absurd (hstop.symm.trans hnot) (by simp)
      wait_inflight := by simp [hphase]
      drain_idle := fun _ hnot => absurd (hstop.symm.trans hnot) (by simp)
      not_cancelled := h.not_cancelled }

end Loop

end Sched
end PhloTransform.Engine
